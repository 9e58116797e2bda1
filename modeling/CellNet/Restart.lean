import CellNet.Cxx
import CellNet.TaskServer
import Mathlib.Data.List.Nodup
import Mathlib.Logic.Function.Basic

/-!
# Task servers that are started again

`taskServer` is one `Start` and one `Close`. Here the owner goes on, round after round : each
`Start` launches a worker with its own place in `OnRun`, and they all use the two lists of
`CELLTaskServer`. The drain at the end of `OnRun` executes what is in `_tasksBuf` and leaves
it there, so the worker of the next round finds it again.

`Once` says what is not executed twice by the worker in `OnRun` : what it has ahead of it was
not executed before. A worker that is launched beside one that is not yet behind its drain,
or while a task that was executed is in the buffer, can execute a task again, and without such
a launch none does : `restart_repeats_no_task_iff`.
-/

namespace CellNet

variable {τ : Type*}

/-! ## The rounds -/

/-- A `CELLTaskServer` with the places of all its workers. -/
structure TaskRounds (τ : Type*) where
  /-- `_tasks`. -/
  tasks : List (CELLTask τ)
  /-- `_tasksBuf`. -/
  tasksBuf : List (CELLTask τ)
  /-- `_thread`. -/
  thread : CELLThread
  /-- Where each worker is in `OnRun`. -/
  runs : ℕ → RunPC
  /-- The tasks of all the calls of `addTask`, in their order. -/
  added : List (CELLTask τ)
  /-- The tasks the workers have executed, in their order. -/
  executed : List (CELLTask τ)
  /-- `Start` has been called, and `Close` not yet behind it. -/
  started : Bool

namespace TaskRounds

/-- A new server. -/
def new : TaskRounds τ :=
  ⟨[], [], .new, fun _ => .loop, [], [], false⟩

/-- The server as the worker `i` sees it. -/
def view (s : TaskRounds τ) (i : ℕ) : CELLTaskServer τ :=
  ⟨s.tasks, s.tasksBuf, s.thread, s.runs i, s.added, s.executed, s.started, none⟩

/-- The server after the worker `i` has made it `t`. -/
def put (s : TaskRounds τ) (i : ℕ) (t : CELLTaskServer τ) : TaskRounds τ :=
  { s with
    tasks := t.tasks
    tasksBuf := t.tasksBuf
    runs := Function.update s.runs i t.run
    added := t.added
    executed := t.executed }

/-- `addTask`. -/
def addTask (s : TaskRounds τ) (task : τ) : TaskRounds τ :=
  { s with
    tasksBuf := s.tasksBuf ++ [⟨s.added.length, task⟩]
    added := s.added ++ [⟨s.added.length, task⟩] }

/-- The thread takes a step. -/
def onThread (s : TaskRounds τ) (a : ThreadAct) : Option (Exec (TaskRounds τ)) :=
  (s.thread.act a).map fun thread => .ok { s with thread }

end TaskRounds

/-- A worker at `r` clears the list a worker at `r'` has an iterator of. -/
def RunPC.invalidates : RunPC → RunPC → Bool
  | .handOver, .drain (some _) | .handOver, .drainNext _ | .clear, .exec _ => true
  | _, _ => false

namespace TaskRounds

/-- The next step of the worker `i` in `OnRun`, which returns at its end. -/
def onRun (s : TaskRounds τ) (i : ℕ) (adds : List τ) : Option (Exec (TaskRounds τ)) :=
  if s.runs i = .ended then
    s.onThread (.ret i)
  else if (List.range s.thread.workers.length).any fun j => j ≠ i ∧
      s.thread.workers[j]? = some (.callback .onRun) ∧ (s.runs i).invalidates (s.runs j) then
    some (.error .useAfterFree)
  else
    ((s.view i).onRun adds).map fun t => .ok (s.put i t)

/-- The next step of the worker `i` in `OnWork`, where `_onCreate` and `_onDestory` are
null. -/
def workerStep (s : TaskRounds τ) (i : ℕ) (adds : List τ) : Option (Exec (TaskRounds τ)) :=
  match s.thread.workers[i]? with
  | some (.callback .onRun) => s.onRun i adds
  | some (.callback _) => s.onThread (.ret i)
  | _ => s.onThread (.worker i)

end TaskRounds

/-- What can happen. -/
inductive RoundsAct (τ : Type*)
  /-- A producer calls `addTask`. -/
  | addTask (task : τ)
  /-- The owner calls `Start`. -/
  | start
  /-- The owner calls `Close`. -/
  | close
  /-- The owner's next step in `Start` or `Close`. -/
  | owner
  /-- The next step of the worker `i`. If it executes a task, the task adds `adds`. -/
  | worker (i : ℕ) (adds : List τ)

namespace TaskRounds

/-- One action. The owner calls `Start` and `Close` in turn, each behind the other. -/
def act (s : TaskRounds τ) : RoundsAct τ → Option (Exec (TaskRounds τ))
  | .addTask task => some (.ok (s.addTask task))
  | .start => if s.started then none else { s with started := true }.onThread .start
  | .close => if s.started then { s with started := false }.onThread .close else none
  | .owner => s.onThread .owner
  | .worker i adds => s.workerStep i adds

end TaskRounds

/-- A task server that is started and closed again and again. -/
def taskRounds (τ : Type*) : Machine (TaskRounds τ) (RoundsAct τ) UB :=
  .ofFn (· = .new) (fun _ _ => True) fun _ => TaskRounds.act

/-! ## Executed once -/

namespace CELLTaskServer

variable {s t : CELLTaskServer τ} {adds : List τ}

/-- What the worker has ahead of it, which is nothing behind the drain. -/
def ahead (s : CELLTaskServer τ) : List (CELLTask τ) :=
  if s.run.Past then [] else s.pending

/-- No task was executed twice, and none that was executed is ahead. -/
structure Once (s : CELLTaskServer τ) : Prop where
  calls : s.added.map CELLTask.call = List.range s.added.length
  nodup : (s.executed ++ s.ahead).Nodup
  buf : s.tasksBuf.Nodup
  mem : ∀ t ∈ s.executed ++ (s.tasks ++ s.tasksBuf), t ∈ s.added
  tasks : ¬s.run.InLoop ∨ s.run = .loop → s.tasks = []
  drain : ∀ k, s.run = .drain (some k) ∨ s.run = .drainNext k → k < s.tasksBuf.length

theorem Once.fresh (hs : s.Once) (task : τ) : (⟨s.added.length, task⟩ : CELLTask τ) ∉ s.added := by
  intro hmem
  have hcall := List.mem_map_of_mem (f := CELLTask.call) hmem
  rw [hs.calls] at hcall
  exact absurd (List.mem_range.mp hcall) (lt_irrefl _)

theorem mem_of_pending {x : CELLTask τ} (hrun : ¬s.run.Past) (h : x ∈ s.pending) :
    x ∈ s.tasks ++ s.tasksBuf := by
  have hdrop : ∀ (xs : List (CELLTask τ)) k, x ∈ xs.drop k → x ∈ xs := fun xs k hx =>
    List.mem_of_mem_drop hx
  unfold pending at h
  rw [List.mem_append]
  split at h
  · exact List.mem_append.mp h
  · exact List.mem_append.mp h
  · exact List.mem_append.mp h
  · exact List.mem_append.mp h
  · exact (List.mem_append.mp h).imp_left (hdrop _ _)
  · exact .inr h
  · exact .inr h
  · exact .inr (hdrop _ _ h)
  · exact .inr (hdrop _ _ h)
  · rename_i hnone
    rw [hnone] at hrun
    exact absurd trivial hrun
  · rename_i hended
    rw [hended] at hrun
    exact absurd trivial hrun

/-- A new task is ahead of the worker behind the others, or stays in the buffer. -/
theorem Once.ahead_addTask (hs : s.Once) (task : τ) :
    (s.addTask task).ahead = s.ahead ++ [⟨s.added.length, task⟩] ∨ (s.addTask task).ahead = [] := by
  unfold ahead
  by_cases hpast : s.run.Past
  · exact .inr (if_pos hpast)
  · left
    have hpast' : ¬(s.addTask task).run.Past := hpast
    rw [if_neg hpast, if_neg hpast']
    exact pending_addTask hpast hs.drain task

theorem Once.addTask (hs : s.Once) (task : τ) : (s.addTask task).Once := by
  have hfresh := hs.fresh task
  have hahead : ∀ x ∈ s.ahead, x ∈ s.added := fun x hx => by
    unfold ahead at hx
    split at hx
    · exact absurd hx List.not_mem_nil
    · exact hs.mem x (List.mem_append_right _ (mem_of_pending ‹_› hx))
  refine ⟨?_, ?_, ?_, fun x hx => ?_, hs.tasks, fun k hk => ?_⟩
  · simp only [CELLTaskServer.addTask, List.map_append, hs.calls, List.length_append,
      List.length_singleton, List.range_succ, List.map_cons, List.map_nil]
  · change (s.executed ++ (s.addTask task).ahead).Nodup
    rcases hs.ahead_addTask task with h | h
    · rw [h, ← List.append_assoc]
      refine List.Nodup.append hs.nodup (List.nodup_singleton _) ?_
      rw [List.disjoint_singleton]
      intro hmem
      rcases List.mem_append.mp hmem with hmem | hmem
      · exact hfresh (hs.mem _ (List.mem_append_left _ hmem))
      · exact hfresh (hahead _ hmem)
    · rw [h, List.append_nil]
      exact hs.nodup.of_append_left
  · refine List.Nodup.append hs.buf (List.nodup_singleton _) ?_
    rw [List.disjoint_singleton]
    exact fun hmem => hfresh (hs.mem _ (List.mem_append_right _ (List.mem_append_right _ hmem)))
  · simp only [CELLTaskServer.addTask, List.mem_append, List.mem_singleton] at hx ⊢
    rcases hx with hx | hx | hx | hx
    · exact .inl (hs.mem x (by simp [hx]))
    · exact .inl (hs.mem x (by simp [hx]))
    · exact .inl (hs.mem x (by simp [hx]))
    · exact .inr hx
  · have := hs.drain k hk
    simp only [CELLTaskServer.addTask, List.length_append, List.length_singleton]
    omega

theorem Once.addTasks (hs : s.Once) (adds : List τ) :
    (adds.foldl CELLTaskServer.addTask s).Once := by
  induction adds generalizing s with
  | nil => exact hs
  | cons task adds ih => exact ih (hs.addTask task)

/-- The worker executes the first task it has ahead. -/
theorem Once.execute (hs : s.Once) {x : CELLTask τ} {r : RunPC} (hrun : ¬s.run.Past)
    (hr : ¬r.Past)
    (hpending : s.pending = x :: pending { s with executed := s.executed ++ [x], run := r })
    (htasks : ¬r.InLoop ∨ r = .loop → s.tasks = [])
    (hdrain : ∀ k, r = .drain (some k) ∨ r = .drainNext k → k < s.tasksBuf.length)
    (adds : List τ) : Once { s.execute x adds with run := r } := by
  have hx : x ∈ s.tasks ++ s.tasksBuf := mem_of_pending hrun (hpending ▸ List.mem_cons_self)
  have hnodup := hs.nodup
  rw [execute_run]
  apply Once.addTasks
  refine ⟨hs.calls, ?_, hs.buf, fun y hy => ?_, htasks, hdrain⟩
  · rw [ahead, if_neg hrun, hpending] at hnodup
    change (s.executed ++ [x] ++ ahead _).Nodup
    rw [ahead, if_neg (by exact hr), List.append_assoc]
    exact hnodup
  · rw [List.mem_append, List.mem_append, List.mem_singleton] at hy
    rcases hy with (hy | rfl) | hy
    · exact hs.mem y (List.mem_append_left _ hy)
    · exact hs.mem y (List.mem_append_right _ hx)
    · exact hs.mem y (List.mem_append_right _ hy)

/-- The worker moves on without executing a task. -/
theorem Once.goTo (hs : s.Once) (hadded : t.added = s.added) (hexecuted : t.executed = s.executed)
    (hahead : t.ahead = s.ahead ∨ t.ahead = []) (hbuf : t.tasksBuf.Nodup)
    (hmem : ∀ x ∈ t.tasks ++ t.tasksBuf, x ∈ s.tasks ++ s.tasksBuf)
    (htasks : ¬t.run.InLoop ∨ t.run = .loop → t.tasks = [])
    (hdrain : ∀ k, t.run = .drain (some k) ∨ t.run = .drainNext k → k < t.tasksBuf.length) :
    t.Once := by
  refine ⟨by rw [hadded, hs.calls], ?_, hbuf, fun x hx => ?_, htasks, hdrain⟩
  · rw [hexecuted]
    rcases hahead with h | h
    · rw [h]
      exact hs.nodup
    · rw [h, List.append_nil]
      exact hs.nodup.of_append_left
  · rw [hadded]
    rw [hexecuted] at hx
    rcases List.mem_append.mp hx with hx | hx
    · exact hs.mem x (List.mem_append_left _ hx)
    · exact hs.mem x (List.mem_append_right _ (hmem x hx))

theorem Once.onRun (hs : s.Once) (hpast : ¬s.run.Past) (h : s.onRun adds = some t) : t.Once := by
  have hahead : s.ahead = s.pending := if_neg hpast
  cases Advances.of_onRun h with
  | execute _ hto hpending hphase hloop hdrain =>
    refine hs.execute hpast hto hpending (fun hr => ?_) hdrain adds
    exact hs.tasks (.inl (hphase.not.mp (hr.resolve_right hloop)))
  | @goTo tasks tasksBuf r _ hto hpending hbuf hlists _ hloop hleft hdrain =>
    refine hs.goTo rfl rfl (.inl ?_) (hs.buf.sublist hbuf) (fun x hx => hlists.subset hx)
      (fun hr => ?_) hdrain
    · rw [hahead, ← hpending fun hr => hs.tasks (.inr hr)]
      exact if_neg hto
    · rcases hr with hr | hr
      · obtain ⟨htasks, hfrom⟩ := hleft hr
        exact htasks.trans (hs.tasks hfrom)
      · exact hloop hr
  | drained _ hphase =>
    exact hs.goTo rfl rfl (.inr (if_pos trivial)) hs.buf (fun x hx => hx)
      (fun _ => hs.tasks (.inl hphase)) (by simp)
  | ended hfrom => exact absurd (RunPC.past_iff.mpr (.inl hfrom)) hpast
  | ret hfrom => exact absurd (RunPC.past_iff.mpr (.inr hfrom)) hpast

/-- What is executed once does not depend on the thread. -/
theorem Once.congr (hs : s.Once) (htasks : t.tasks = s.tasks) (hbuf : t.tasksBuf = s.tasksBuf)
    (hrun : t.run = s.run) (hadded : t.added = s.added) (hexecuted : t.executed = s.executed) :
    t.Once := by
  have hahead : t.ahead = s.ahead := by
    simp only [ahead, pending, htasks, hbuf, hrun, hadded, hexecuted]
  refine hs.goTo hadded hexecuted (.inl hahead) (hbuf ▸ hs.buf) (fun x hx => ?_) ?_ ?_
  · rwa [htasks, hbuf] at hx
  · rw [hrun, htasks]
    exact hs.tasks
  · rw [hrun, hbuf]
    exact hs.drain

/-- A worker behind its drain leaves the rest to nobody. -/
theorem Once.ended (hs : s.Once) (hpast : s.run.Past) : Once { s with run := .ended } := by
  have htasks : s.tasks = [] := hs.tasks (.inl fun hloop => hloop.not_past hpast)
  exact hs.goTo rfl rfl (.inr (by simp [ahead, RunPC.Past])) hs.buf (fun x hx => hx)
    (fun _ => htasks) (by simp)

/-- A new worker, where no executed task is in the buffer. -/
theorem Once.launch (hs : s.Once) (hpast : s.run.Past) (hfresh : ∀ x ∈ s.tasksBuf, x ∉ s.executed) :
    Once { s with run := .loop } := by
  have htasks : s.tasks = [] := (hs.ended hpast).tasks (.inl (by simp [RunPC.InLoop]))
  refine ⟨hs.calls, ?_, hs.buf, hs.mem, fun _ => htasks, by simp⟩
  have hahead : ahead { s with run := .loop } = s.tasksBuf := by
    rw [ahead, if_neg (by simp [RunPC.Past])]
    change s.tasks ++ s.tasksBuf = s.tasksBuf
    rw [htasks, List.nil_append]
  rw [hahead]
  exact List.Nodup.append hs.nodup.of_append_left hs.buf fun x hx hx' => hfresh x hx' hx

/-! ## A second execution -/

/-- The worker goes on, and no task adds another. -/
def GoesOn : CELLTaskServer τ → CELLTaskServer τ → Prop :=
  Relation.ReflTransGen fun s t => s.run ≠ .ended ∧ s.onRun [] = some t

theorem execute_nil (s : CELLTaskServer τ) (x : CELLTask τ) :
    s.execute x [] = { s with executed := s.executed ++ [x] } :=
  rfl

/-- The loop over `_tasks` executes them from the first one on. -/
theorem goesOn_exec (hrun : s.run = .exec 0) {k : ℕ} (hk : k ≤ s.tasks.length) :
    s.GoesOn { s with run := .exec k, executed := s.executed ++ s.tasks.take k } := by
  induction k with
  | zero =>
    have hsame : { s with run := .exec 0, executed := s.executed ++ s.tasks.take 0 } = s := by
      rw [← hrun, List.take_zero, List.append_nil]
    rw [hsame]
    exact .refl
  | succ k ih =>
    refine (ih (by omega)).tail ⟨by simp, ?_⟩
    have hget : s.tasks[k]? = some s.tasks[k] := List.getElem?_eq_getElem (by omega)
    simp only [onRun, hget, execute_nil]
    rw [List.append_assoc, List.take_append_getElem]

theorem onRun_drain {k : ℕ} (hk : k < s.tasksBuf.length) (hrun : s.run = .drain (some k)) :
    s.onRun [] =
      some { s with run := .drainNext k, executed := s.executed ++ [s.tasksBuf[k]] } := by
  simp only [onRun, hrun, List.getElem?_eq_getElem hk, Option.map_some, execute_nil]

/-- The loop over `_tasksBuf` executes them from the first one on. -/
theorem goesOn_drain (hrun : s.run = .drain (some 0)) {k : ℕ} (hk : k < s.tasksBuf.length) :
    s.GoesOn { s with
      run := .drainNext k
      executed := s.executed ++ s.tasksBuf.take (k + 1) } := by
  induction k with
  | zero =>
    refine .single ⟨by simp [hrun], ?_⟩
    rw [onRun_drain hk hrun, ← List.take_append_getElem hk]
    rfl
  | succ k ih =>
    let v : CELLTaskServer τ := { s with
      run := .drain (some (k + 1))
      executed := s.executed ++ s.tasksBuf.take (k + 1) }
    have hnext : s.GoesOn v := by
      refine (ih (by omega)).tail ⟨by simp, ?_⟩
      simp only [onRun, if_pos hk]
      rfl
    refine hnext.tail ⟨by simp [v], ?_⟩
    have hk' : k + 1 < v.tasksBuf.length := hk
    have hstep : v.onRun [] = some { v with
        run := .drainNext (k + 1)
        executed := v.executed ++ [v.tasksBuf[k + 1]] } := onRun_drain hk' rfl
    rw [hstep, ← List.take_append_getElem hk, ← List.append_assoc]

/-- A worker at the test of its loop takes over the buffer. -/
theorem goesOn_takeOver (hrun : s.run = .loop) (htasks : s.tasks = []) (hne : s.tasksBuf ≠ [])
    (hisRun : s.thread.isRun = true) :
    s.GoesOn { s with tasks := s.tasksBuf, tasksBuf := [], run := .exec 0 } := by
  refine .trans (.single (b := { s with run := .testBuf }) ⟨by simp [hrun], ?_⟩) ?_
  · simp only [onRun, hrun, hisRun, if_true]
  refine .trans (.single (b := { s with run := .handOver }) ⟨by simp, ?_⟩) ?_
  · simp [onRun, hne]
  refine .trans (.single (b := { s with
    tasks := s.tasksBuf
    tasksBuf := []
    run := .testTasks }) ⟨by simp, ?_⟩) (.single ⟨by simp, ?_⟩)
  · simp [onRun, htasks]
  · simp [onRun, hne]

/-- A worker that enters `OnRun` executes every task it finds in the buffer. -/
theorem goesOn_repeat (hrun : s.run = .loop) (htasks : s.tasks = []) {x : CELLTask τ}
    (hx : x ∈ s.tasksBuf) (hexec : x ∈ s.executed) :
    ∃ t, s.GoesOn t ∧ ¬t.executed.Nodup := by
  obtain ⟨k, hk, rfl⟩ := List.mem_iff_getElem.mp hx
  have htwice : ¬(s.executed ++ s.tasksBuf.take (k + 1)).Nodup := fun h => by
    refine List.disjoint_of_nodup_append h hexec ?_
    rw [← List.take_append_getElem hk]
    exact List.mem_append_right _ (List.mem_singleton_self _)
  have hne : s.tasksBuf ≠ [] := List.ne_nil_of_mem hx
  by_cases hisRun : s.thread.isRun = true
  · let v : CELLTaskServer τ := { s with tasks := s.tasksBuf, tasksBuf := [], run := .exec 0 }
    have hexec := goesOn_exec (s := v) rfl (k := k + 1) hk
    exact ⟨_, (goesOn_takeOver hrun htasks hne hisRun).trans hexec, htwice⟩
  · let v : CELLTaskServer τ := { s with run := .drain (some 0) }
    have hv : s.GoesOn v := by
      refine .trans (.single (b := { s with run := .drainBegin }) ⟨by simp [hrun], ?_⟩)
        (.single ⟨by simp, ?_⟩)
      · simp only [onRun, hrun, if_neg hisRun]
      · simp [onRun, hne, v]
    have hexec := goesOn_drain (s := v) rfl (k := k) hk
    exact ⟨_, hv.trans hexec, htwice⟩

/-- The worker comes to the test of the `while` loop, its tasks done. -/
def ComesToLoop (s : CELLTaskServer τ) : Prop :=
  ∃ t, s.GoesOn t ∧ t.run = .loop ∧ t.tasks = []

theorem ComesToLoop.head (hrun : s.run ≠ .ended) (h : s.onRun [] = some t) (ht : t.ComesToLoop) :
    s.ComesToLoop := by
  obtain ⟨u, hu, h'⟩ := ht
  exact ⟨u, .head ⟨hrun, h⟩ hu, h'⟩

theorem comesToLoop_clear (hrun : s.run = .clear) : s.ComesToLoop :=
  ⟨{ s with tasks := [], run := .loop }, .single ⟨by simp [hrun], by simp [onRun, hrun]⟩, rfl, rfl⟩

theorem comesToLoop_exec (m : ℕ) {k : ℕ} (hm : s.tasks.length - k = m) (hrun : s.run = .exec k) :
    s.ComesToLoop := by
  induction m generalizing s k with
  | zero =>
    have hnone : s.tasks[k]? = none := List.getElem?_eq_none (by omega)
    have hend : ComesToLoop { s with run := .clear } := comesToLoop_clear rfl
    exact .head (by simp [hrun]) (by simp [onRun, hrun, hnone]) hend
  | succ m ih =>
    have hk : k < s.tasks.length := by omega
    have hnext : ComesToLoop { s.execute s.tasks[k] [] with run := .exec (k + 1) } :=
      ih (by rw [execute_nil]; simp only; omega) rfl
    exact .head (by simp [hrun]) (by simp [onRun, hrun, hk]) hnext

theorem comesToLoop_testTasks (hrun : s.run = .testTasks) : s.ComesToLoop := by
  by_cases hempty : s.tasks.isEmpty = true
  · exact ⟨{ s with run := .loop }, .single ⟨by simp [hrun], by simp [onRun, hrun, hempty]⟩, rfl,
      List.isEmpty_iff.mp hempty⟩
  · have hnext : ComesToLoop { s with run := .exec 0 } := comesToLoop_exec _ rfl rfl
    exact .head (by simp [hrun]) (by simp [onRun, hrun, hempty]) hnext

theorem comesToLoop_handOver (hrun : s.run = .handOver) : s.ComesToLoop := by
  have hnext : ComesToLoop
      { s with tasks := s.tasks ++ s.tasksBuf, tasksBuf := [], run := .testTasks } :=
    comesToLoop_testTasks rfl
  exact .head (by simp [hrun]) (by simp [onRun, hrun]) hnext

theorem comesToLoop (hrun : s.run.InLoop) (htasks : s.run = .loop → s.tasks = []) :
    s.ComesToLoop := by
  cases hpc : s.run with
  | loop => exact ⟨s, .refl, hpc, htasks hpc⟩
  | testBuf =>
    by_cases hempty : s.tasksBuf.isEmpty = true
    · have hnext : ComesToLoop { s with run := .testTasks } := comesToLoop_testTasks rfl
      exact .head (by simp [hpc]) (by simp [onRun, hpc, hempty]) hnext
    · have hnext : ComesToLoop { s with run := .handOver } := comesToLoop_handOver rfl
      exact .head (by simp [hpc]) (by simp [onRun, hpc, hempty]) hnext
  | handOver => exact comesToLoop_handOver hpc
  | testTasks => exact comesToLoop_testTasks hpc
  | exec k => exact comesToLoop_exec _ rfl hpc
  | clear => exact comesToLoop_clear hpc
  | drainBegin | drain _ | drainNext _ | ended =>
    rw [hpc] at hrun
    exact hrun.elim

/-- The drain ends, with the last task of the buffer executed and left there. -/
def Drained (s : CELLTaskServer τ) (x : CELLTask τ) : Prop :=
  ∃ t, s.GoesOn t ∧ t.run = .drain none ∧ t.tasks = s.tasks ∧ x ∈ t.tasksBuf ∧ x ∈ t.executed

theorem drained_drain {x : CELLTask τ} {buf : List (CELLTask τ)} (m : ℕ) {k : ℕ}
    (hbuf : s.tasksBuf = buf ++ [x]) (hm : buf.length - k = m) (hk : k ≤ buf.length)
    (hrun : s.run = .drain (some k)) : s.Drained x := by
  have hlen : s.tasksBuf.length = buf.length + 1 := by rw [hbuf, List.length_append]; rfl
  induction m generalizing s k with
  | zero =>
    obtain rfl : k = buf.length := by omega
    have hlast : s.tasksBuf[buf.length] = x := by simp [hbuf]
    refine ⟨{ s with run := .drain none, executed := s.executed ++ [x] },
      .tail (.single ⟨by simp [hrun], onRun_drain (by omega) hrun⟩) ⟨by simp, ?_⟩, rfl, rfl, ?_, ?_⟩
    · simp [onRun, hlen, hlast]
    · simp [hbuf]
    · simp
  | succ m ih =>
    let v : CELLTaskServer τ := { s with
      run := .drain (some (k + 1))
      executed := s.executed ++ [s.tasksBuf[k]] }
    have hv : s.GoesOn v := by
      refine .tail (.single ⟨by simp [hrun], onRun_drain (by omega) hrun⟩) ⟨by simp, ?_⟩
      simp only [onRun]
      rw [if_pos (by omega)]
    have hv' : v.Drained x := ih hbuf (by omega) (by omega) rfl hlen
    obtain ⟨t, ht, h⟩ := hv'
    exact ⟨t, hv.trans ht, h⟩

/-- The worker goes through the drain, with a task behind the one it is at. -/
theorem drained {x : CELLTask τ} {buf : List (CELLTask τ)} (hbuf : s.tasksBuf = buf ++ [x])
    (hloop : ¬s.run.InLoop) (hpast : ¬s.run.Past)
    (hdrain : ∀ k, s.run = .drain (some k) ∨ s.run = .drainNext k → k < buf.length) :
    s.Drained x := by
  have hlen : s.tasksBuf.length = buf.length + 1 := by rw [hbuf, List.length_append]; rfl
  have hhead : ∀ {v : CELLTaskServer τ} {k : ℕ}, s.run ≠ .ended → s.onRun [] = some v →
      v.tasks = s.tasks → v.tasksBuf = s.tasksBuf → v.run = .drain (some k) → k ≤ buf.length →
      s.Drained x := by
    intro v k hended hstep htasks hvbuf hv hk
    obtain ⟨t, ht, hrun, htt, h⟩ := drained_drain _ (hvbuf.trans hbuf) rfl hk hv
    exact ⟨t, .head ⟨hended, hstep⟩ ht, hrun, htt.trans htasks, h⟩
  cases hrun : s.run with
  | drainBegin =>
    have hstep : s.onRun [] = some { s with run := .drain (some 0) } := by
      simp [onRun, hrun, hbuf]
    exact hhead (by simp [hrun]) hstep rfl rfl rfl (Nat.zero_le _)
  | drain it =>
    cases it with
    | none =>
      rw [hrun] at hpast
      exact absurd trivial hpast
    | some k => exact drained_drain _ hbuf rfl (hdrain k (.inl hrun)).le hrun
  | drainNext k =>
    have hk := hdrain k (.inr hrun)
    have hstep : s.onRun [] = some { s with run := .drain (some (k + 1)) } := by
      simp only [onRun, hrun]
      rw [if_pos (by omega)]
    exact hhead (by simp [hrun]) hstep rfl rfl rfl hk
  | ended =>
    rw [hrun] at hpast
    exact absurd trivial hpast
  | loop | testBuf | handOver | testTasks | exec _ | clear =>
    rw [hrun] at hloop
    exact absurd trivial hloop

end CELLTaskServer

/-! ## The workers -/

/-- In a call of `Exit`. -/
def WorkerPC.InExit : WorkerPC → Prop
  | .exitTest _ | .exitLock _ | .exitSet _ | .exitUnlock _ => True
  | _ => False

/-- A worker at `w`, with its place `r` in `OnRun`, uses the lists. -/
def WorkerPC.Active (w : WorkerPC) (r : RunPC) : Prop :=
  w = .callback .onCreate ∨ (w = .callback .onRun ∧ ¬r.Past)

namespace TaskRounds

variable {s t : TaskRounds τ} {a : RoundsAct τ} {tr : List (TaskRounds τ × RoundsAct τ)} {i : ℕ}
  {adds : List τ}

/-- The worker `i` is before or in `OnRun`, and uses the lists. -/
def Active (s : TaskRounds τ) (i : ℕ) : Prop :=
  ∃ w, s.thread.workers[i]? = some w ∧ w.Active (s.runs i)

/-- The server while no worker uses the lists. -/
def rest (s : TaskRounds τ) : CELLTaskServer τ :=
  { s.view 0 with run := .ended }

/-- Only the last worker uses the lists, and no task is executed twice. -/
structure Sound (s : TaskRounds τ) : Prop where
  runs : ∀ i, (∀ w, s.thread.workers[i]? = some w → w = .callback .onCreate) → s.runs i = .loop
  noExit : ∀ w ∈ s.thread.workers, ¬w.InExit
  last : ∀ i, s.Active i → i + 1 = s.thread.workers.length
  active : ∀ i, s.Active i → (s.view i).Once
  rest : (∀ i, ¬s.Active i) → s.rest.Once

theorem Sound.new : (new : TaskRounds τ).Sound := by
  refine ⟨fun i _ => rfl, by simp [TaskRounds.new, CELLThread.new], ?_, ?_, fun _ => ?_⟩
  · rintro i ⟨w, hw, -⟩
    simp [TaskRounds.new, CELLThread.new] at hw
  · rintro i ⟨w, hw, -⟩
    simp [TaskRounds.new, CELLThread.new] at hw
  · exact ⟨rfl, List.nodup_nil, List.nodup_nil, by simp [TaskRounds.rest, view, TaskRounds.new],
      fun _ => rfl, by simp [TaskRounds.rest]⟩

/-- In every state no task was executed twice. -/
theorem Sound.executed (hs : s.Sound) : s.executed.Nodup := by
  by_cases h : ∀ i, ¬s.Active i
  · exact (hs.rest h).nodup.of_append_left
  · push Not at h
    obtain ⟨i, hi⟩ := h
    exact (hs.active i hi).nodup.of_append_left

theorem Sound.addTask (hs : s.Sound) (task : τ) : (s.addTask task).Sound :=
  ⟨hs.runs, hs.noExit, hs.last, fun i hi => (hs.active i hi).addTask task,
    fun h => (hs.rest h).addTask task⟩

/-- A step of the thread that launches nobody. -/
theorem Sound.onThread (hs : s.Sound) (thread : CELLThread) (started : Bool)
    (hworkers : thread.workers = s.thread.workers) : Sound { s with thread, started } := by
  have hactive : ∀ i, Active { s with thread, started } i → s.Active i := by
    rintro i ⟨w, hw, hact⟩
    exact ⟨w, hworkers ▸ hw, hact⟩
  refine ⟨fun i hi => hs.runs i (hworkers ▸ hi), fun w hw => hs.noExit w (hworkers ▸ hw),
    fun i hi => ?_, fun i hi => ?_, fun h => ?_⟩
  · change i + 1 = thread.workers.length
    rw [hworkers]
    exact hs.last i (hactive i hi)
  · exact (hs.active i (hactive i hi)).congr rfl rfl rfl rfl rfl
  · refine (hs.rest fun i hi => h i ?_).congr rfl rfl rfl rfl rfl
    obtain ⟨w, hw, hact⟩ := hi
    exact ⟨w, hworkers ▸ hw, hact⟩

/-- A worker moves, and goes on or not with using the lists. -/
theorem Sound.setWorker (hs : s.Sound) {thread : CELLThread} {w w' : WorkerPC}
    (hget : s.thread.workers[i]? = some w) (hworkers : thread.workers = s.thread.workers.set i w')
    (hactive : w'.Active (s.runs i) ↔ w.Active (s.runs i)) (hcreate : w' ≠ .callback .onCreate)
    (hexit : ¬w'.InExit) : Sound { s with thread } := by
  obtain ⟨hlt, -⟩ := List.getElem?_eq_some_iff.mp hget
  have hiff : ∀ j, Active { s with thread } j ↔ s.Active j := by
    intro j
    unfold Active
    rw [hworkers]
    by_cases hj : i = j
    · subst hj
      simp only [List.getElem?_set_self hlt, hget, Option.some.injEq, exists_eq_left']
      exact hactive
    · rw [List.getElem?_set_ne hj]
  refine ⟨fun j hj => ?_, fun x hx => ?_, fun j hj => ?_, fun j hj => ?_, fun h => ?_⟩
  · refine hs.runs j fun x hx => hj x ?_
    rw [hworkers]
    by_cases hij : i = j
    · subst hij
      exact absurd (hj w' (by rw [hworkers, List.getElem?_set_self hlt])) hcreate
    · rwa [List.getElem?_set_ne hij]
  · rw [hworkers] at hx
    rcases List.mem_or_eq_of_mem_set hx with hx | rfl
    · exact hs.noExit x hx
    · exact hexit
  · change j + 1 = thread.workers.length
    rw [hworkers, List.length_set]
    exact hs.last j ((hiff j).mp hj)
  · exact (hs.active j ((hiff j).mp hj)).congr rfl rfl rfl rfl rfl
  · exact (hs.rest fun j hj => h j ((hiff j).mpr hj)).congr rfl rfl rfl rfl rfl

/-- A worker that uses the lists goes on in `OnRun`. -/
theorem Sound.put (hs : s.Sound) (hget : s.thread.workers[i]? = some (.callback .onRun))
    (hpast : ¬(s.runs i).Past) {v : CELLTaskServer τ} (h : (s.view i).onRun adds = some v) :
    (s.put i v).Sound := by
  have hi : s.Active i := ⟨_, hget, .inr ⟨rfl, hpast⟩⟩
  have hv : v.Once := (hs.active i hi).onRun hpast h
  have hself : (s.put i v).runs i = v.run := Function.update_self ..
  have hother : ∀ j, j ≠ i → (s.put i v).runs j = s.runs j := fun j hj =>
    Function.update_of_ne hj ..
  have honly : ∀ j, (s.put i v).Active j → j = i := by
    rintro j ⟨w, hw, hact⟩
    by_contra hj
    rw [hother j hj] at hact
    have := hs.last j ⟨w, hw, hact⟩
    have := hs.last i hi
    omega
  refine ⟨fun j hj => ?_, hs.noExit, fun j hj => ?_, fun j hj => ?_, fun hnone => ?_⟩
  · have hne : j ≠ i := by
      rintro rfl
      exact absurd (hj _ hget) (by simp)
    rw [hother j hne]
    exact hs.runs j hj
  · rw [honly j hj]
    exact hs.last i hi
  · rw [honly j hj]
    exact hv.congr rfl rfl hself rfl rfl
  · have hvpast : v.run.Past := by
      by_contra hvrun
      exact hnone i ⟨_, hget, .inr ⟨rfl, hself ▸ hvrun⟩⟩
    exact (hv.ended hvpast).congr rfl rfl rfl rfl rfl

/-- A worker behind its drain comes to the end of `OnRun`. -/
theorem Sound.putPast (hs : s.Sound) (hget : s.thread.workers[i]? = some (.callback .onRun))
    (hpast : (s.runs i).Past) (hended : s.runs i ≠ .ended) {v : CELLTaskServer τ}
    (h : (s.view i).onRun adds = some v) : (s.put i v).Sound := by
  have hrun : s.runs i = .drain none := by
    unfold RunPC.Past at hpast
    split at hpast
    · assumption
    · contradiction
    · exact hpast.elim
  obtain rfl : { s.view i with run := .ended } = v := by
    simpa [CELLTaskServer.onRun, view, hrun] using h
  have hself : (s.put i { s.view i with run := .ended }).runs i = .ended := Function.update_self ..
  have hother : ∀ j, j ≠ i → (s.put i { s.view i with run := .ended }).runs j = s.runs j :=
    fun j hj => Function.update_of_ne hj ..
  have hinactive : ∀ (t : TaskRounds τ), t.thread = s.thread → (t.runs i).Past → ¬t.Active i := by
    rintro t hthread hpast ⟨w, hw, hact⟩
    rw [hthread, hget] at hw
    obtain rfl := Option.some.inj hw
    rcases hact with hact | ⟨-, hact⟩
    · exact absurd hact (by simp)
    · exact hact hpast
  have hiff : ∀ j, (s.put i { s.view i with run := .ended }).Active j ↔ s.Active j := by
    intro j
    by_cases hj : j = i
    · subst hj
      exact iff_of_false (hinactive _ rfl (by rw [hself]; trivial)) (hinactive s rfl hpast)
    · unfold Active
      rw [hother j hj]
      rfl
  refine ⟨fun j hj => ?_, hs.noExit, fun j hj => hs.last j ((hiff j).mp hj), fun j hj => ?_,
    fun hnone => ?_⟩
  · have hne : j ≠ i := by
      rintro rfl
      exact absurd (hj _ hget) (by simp)
    rw [hother j hne]
    exact hs.runs j hj
  · have hne : j ≠ i := by
      rintro rfl
      exact hinactive s rfl hpast ((hiff j).mp hj)
    exact (hs.active j ((hiff j).mp hj)).congr rfl rfl (hother j hne) rfl rfl
  · exact (hs.rest fun j hj => hnone j ((hiff j).mpr hj)).congr rfl rfl rfl rfl rfl

/-! ## The launches -/

/-- No worker is launched beside one that is still before or in `OnRun`. -/
def Alone (s : TaskRounds τ) : RoundsAct τ → Prop
  | .owner => s.thread.owner = .startSpawn → ∀ i, ¬s.Active i
  | _ => True

/-- No worker is launched while a task that was executed is in the buffer. -/
def Fresh (s : TaskRounds τ) : RoundsAct τ → Prop
  | .owner => s.thread.owner = .startSpawn → ∀ x ∈ s.tasksBuf, x ∉ s.executed
  | _ => True

/-- The thread behind the launch. -/
theorem launched {thread : CELLThread} (hspawn : s.thread.owner = .startSpawn)
    (h : s.thread.act .owner = some thread) :
    thread.workers = s.thread.workers ++ [.callback .onCreate] := by
  rw [CELLThread.act, CELLThread.ownerStep, hspawn] at h
  obtain rfl := Option.some.inj h
  rfl

theorem Sound.launch (hs : s.Sound) (halone : ∀ i, ¬s.Active i)
    (hfresh : ∀ x ∈ s.tasksBuf, x ∉ s.executed) {thread : CELLThread}
    (hworkers : thread.workers = s.thread.workers ++ [.callback .onCreate]) :
    Sound { s with thread } := by
  have hold : ∀ i, i < s.thread.workers.length → thread.workers[i]? = s.thread.workers[i]? :=
    fun i hi => by rw [hworkers, List.getElem?_append_left hi]
  have hnew : thread.workers[s.thread.workers.length]? = some (.callback .onCreate) := by
    rw [hworkers, List.getElem?_append_right (le_refl _), Nat.sub_self]
    rfl
  have honly : ∀ i, Active { s with thread } i → i = s.thread.workers.length := by
    rintro i ⟨w, hw, hact⟩
    have hlt : i < thread.workers.length := (List.getElem?_eq_some_iff.mp hw).1
    rw [hworkers, List.length_append, List.length_singleton] at hlt
    by_contra hne
    exact halone i ⟨w, hold i (by omega) ▸ hw, hact⟩
  have hloop : ∀ i, s.thread.workers.length ≤ i → s.runs i = .loop := fun i hi =>
    hs.runs i fun w hw => by
      rw [List.getElem?_eq_none hi] at hw
      exact absurd hw nofun
  refine ⟨fun i hi => ?_, fun w hw => ?_, fun i hi => ?_, fun i hi => ?_, fun hnone => ?_⟩
  · by_cases hlt : i < s.thread.workers.length
    · exact hs.runs i fun w hw => hi w ((hold i hlt).trans hw)
    · exact hloop i (not_lt.mp hlt)
  · rw [hworkers] at hw
    rcases List.mem_append.mp hw with hw | hw
    · exact hs.noExit w hw
    · rw [List.mem_singleton.mp hw]
      exact not_false
  · change i + 1 = thread.workers.length
    rw [honly i hi, hworkers, List.length_append, List.length_singleton]
  · have hrun := hloop _ (honly i hi).ge
    exact ((hs.rest halone).launch trivial hfresh).congr rfl rfl hrun rfl rfl
  · exact absurd ⟨_, hnew, .inl rfl⟩ (hnone _)

theorem ownerStep_workers {c thread : CELLThread} (hspawn : c.owner ≠ .startSpawn)
    (h : c.ownerStep = some thread) : thread.workers = c.workers := by
  unfold CELLThread.ownerStep at h
  cases howner : c.owner with
  | startSpawn => exact absurd howner hspawn
  | idle => simp [howner] at h
  | startLock | closeLock | closeBlocked =>
    simp only [howner] at h
    split at h
    · obtain rfl := Option.some.inj h
      rfl
    · exact absurd h nofun
  | _ =>
    simp only [howner, Option.some.injEq] at h
    subst h
    rfl

/-- A call of `Start` or `Close` moves no worker. -/
theorem call_workers {c thread : CELLThread} {x : ThreadAct} (hx : x = .start ∨ x = .close)
    (h : c.act x = some thread) : thread.workers = c.workers := by
  rcases hx with rfl | rfl
  all_goals
    unfold CELLThread.act at h
    dsimp only at h
    split at h
    · obtain rfl := Option.some.inj h
      rfl
    · exact absurd h nofun

theorem onThread_eq {x : ThreadAct} (h : s.onThread x = some (.ok t)) :
    ∃ thread, s.thread.act x = some thread ∧ t = { s with thread } := by
  obtain ⟨thread, hact, ht⟩ := Option.map_eq_some_iff.mp h
  exact ⟨thread, hact, (Except.ok.inj ht).symm⟩

/-- A callback returns. -/
theorem Sound.ret (hs : s.Sound) {c : Callback} (hget : s.thread.workers[i]? = some (.callback c))
    (hactive : c.next.Active (s.runs i) ↔ (WorkerPC.callback c).Active (s.runs i))
    (h : s.onThread (.ret i) = some (.ok t)) : t.Sound := by
  obtain ⟨thread, hact, rfl⟩ := onThread_eq h
  rw [CELLThread.act_ret hget] at hact
  obtain rfl := Option.some.inj hact
  refine hs.setWorker hget rfl hactive ?_ ?_ <;> cases c <;> simp [Callback.next, WorkerPC.InExit]

theorem Sound.worker (hs : s.Sound) (h : s.workerStep i adds = some (.ok t)) : t.Sound := by
  unfold workerStep at h
  split at h
  · rename_i hget
    unfold onRun at h
    split at h
    · rename_i hended
      refine hs.ret hget ?_ h
      simp [WorkerPC.Active, Callback.next, hended, RunPC.Past]
    · rename_i hended
      split at h
      · cases h
      · obtain ⟨v, hv, hput⟩ := Option.map_eq_some_iff.mp h
        obtain rfl := Except.ok.inj hput
        by_cases hpast : (s.runs i).Past
        · exact hs.putPast hget hpast hended hv
        · exact hs.put hget hpast hv
  · rename_i c hne hget
    have hc : c = .onCreate ∨ c = .onDestory := by
      cases c with
      | onCreate => exact .inl rfl
      | onRun => exact (hne rfl).elim
      | onDestory => exact .inr rfl
    rcases hc with rfl | rfl
    · have hrun : s.runs i = .loop := hs.runs i fun w hw => Option.some.inj (hw.symm.trans hget)
      refine hs.ret hget ?_ h
      simp [WorkerPC.Active, Callback.next, hrun, RunPC.Past]
    · refine hs.ret hget ?_ h
      simp [WorkerPC.Active, Callback.next]
  · rename_i hcallback hne
    obtain ⟨thread, hact, rfl⟩ := onThread_eq h
    obtain ⟨w, hget, hact⟩ := Option.bind_eq_some_iff.mp hact
    have hexit := hs.noExit w (List.mem_of_getElem? hget)
    cases w with
    | callback c => exact absurd hget (hne c)
    | exitTest | exitLock | exitSet | exitUnlock => exact absurd trivial hexit
    | wakeup | clear =>
      obtain rfl := Option.some.inj hact
      refine hs.setWorker hget rfl ?_ ?_ ?_ <;> simp [WorkerPC.Active, WorkerPC.InExit]
    | done => cases hact

theorem step_iff : (taskRounds τ).step s a (.ok t) ↔ s.act a = some (.ok t) := by
  simp [taskRounds, Machine.ofFn]

theorem Sound.step (hs : s.Sound) (halone : s.Alone a) (hfresh : s.Fresh a)
    (h : (taskRounds τ).step s a (.ok t)) : t.Sound := by
  have hact := step_iff.mp h
  unfold act at hact
  cases a with
  | addTask task =>
    obtain rfl := Except.ok.inj (Option.some.inj hact)
    exact hs.addTask task
  | start =>
    dsimp only at hact
    split at hact
    · exact absurd hact nofun
    · obtain ⟨thread, hcall, rfl⟩ := onThread_eq hact
      exact hs.onThread thread true (call_workers (.inl rfl) hcall)
  | close =>
    dsimp only at hact
    split at hact
    · obtain ⟨thread, hcall, rfl⟩ := onThread_eq hact
      exact hs.onThread thread false (call_workers (.inr rfl) hcall)
    · exact absurd hact nofun
  | owner =>
    obtain ⟨thread, howner, rfl⟩ := onThread_eq hact
    by_cases hspawn : s.thread.owner = .startSpawn
    · exact hs.launch (halone hspawn) (hfresh hspawn) (launched hspawn howner)
    · exact hs.onThread thread s.started (ownerStep_workers hspawn howner)
  | worker i adds => exact hs.worker hact

/-! ## A launch that repeats tasks -/

/-- `t` comes after `s`, with no other launch that may repeat a task. -/
def Quietly (s t : TaskRounds τ) : Prop :=
  ∃ tr, (taskRounds τ).Run s tr t ∧ ∀ x ∈ tr, x.1.Alone x.2 ∧ x.1.Fresh x.2

theorem Quietly.refl (s : TaskRounds τ) : s.Quietly s :=
  ⟨[], .nil s, by simp⟩

theorem Quietly.trans {u : TaskRounds τ} (h : s.Quietly t) (h' : t.Quietly u) : s.Quietly u := by
  obtain ⟨tr, hrun, htr⟩ := h
  obtain ⟨tr', hrun', htr'⟩ := h'
  refine ⟨tr ++ tr', hrun.append hrun', fun x hx => ?_⟩
  exact (List.mem_append.mp hx).elim (htr x) (htr' x)

theorem Quietly.worker (i : ℕ) (adds : List τ) (h : s.act (.worker i adds) = some (.ok t)) :
    s.Quietly t := by
  refine ⟨_, .single (step_iff.mpr h), fun x hx => ?_⟩
  rw [List.mem_singleton.mp hx]
  exact ⟨trivial, trivial⟩

theorem Quietly.addTask (s : TaskRounds τ) (task : τ) : s.Quietly (s.addTask task) := by
  have hact : s.act (.addTask task) = some (.ok (s.addTask task)) := rfl
  refine ⟨_, .single (step_iff.mpr hact), fun x hx => ?_⟩
  rw [List.mem_singleton.mp hx]
  exact ⟨trivial, trivial⟩

/-- A worker enters `OnRun`. -/
theorem Quietly.enter (hget : s.thread.workers[i]? = some (.callback .onCreate)) :
    s.Quietly { s with thread := s.thread.setWorker i (.callback .onRun) } := by
  refine .worker i [] ?_
  simp only [act, workerStep, hget, TaskRounds.onThread, CELLThread.act_ret hget]
  rfl

/-- A step of `OnRun` that invalidates no iterator. -/
theorem Quietly.onRun (hget : s.thread.workers[i]? = some (.callback .onRun))
    (hquiet : ∀ j, j ≠ i → s.thread.workers[j]? = some (.callback .onRun) →
      (s.runs i).invalidates (s.runs j) = false) {v : CELLTaskServer τ}
    (hrun : s.runs i ≠ .ended) (h : (s.view i).onRun [] = some v) :
    s.Quietly (s.put i v) ∧ (s.put i v).view i = v := by
  have hnone : ((List.range s.thread.workers.length).any fun j => j ≠ i ∧
      s.thread.workers[j]? = some (.callback .onRun) ∧
        (s.runs i).invalidates (s.runs j)) = false := by
    rw [List.any_eq_false]
    intro j _
    simp only [decide_eq_true_eq, not_and, Bool.not_eq_true]
    exact hquiet j
  constructor
  · refine .worker i [] ?_
    simp only [act, workerStep, hget, TaskRounds.onRun, if_neg hrun, hnone, h]
    rfl
  · rcases CELLTaskServer.onRun_cases h with ⟨hthread, hstarted, hclose, -⟩ | ⟨hended, -⟩
    · obtain ⟨tasks, tasksBuf, thread, run, added, executed, started, atClose⟩ := v
      obtain rfl : thread = s.thread := hthread
      obtain rfl : started = s.started := hstarted
      obtain rfl : atClose = none := hclose
      simp [view, put]
    · exact absurd hended hrun

/-- The worker `i` is in `OnRun`, and no other has an iterator of the lists. -/
structure Solo (s : TaskRounds τ) (i : ℕ) : Prop where
  get : s.thread.workers[i]? = some (.callback .onRun)
  past : ∀ j, j ≠ i → s.thread.workers[j]? = some (.callback .onRun) → (s.runs j).Past

/-- `t` is `s` but for what the worker `i` has done in `OnRun`. -/
structure Frame (s t : TaskRounds τ) (i : ℕ) : Prop where
  quietly : s.Quietly t
  thread : t.thread = s.thread
  runs : ∀ j, j ≠ i → t.runs j = s.runs j

theorem Frame.solo (h : s.Frame t i) (hs : s.Solo i) : t.Solo i :=
  ⟨h.thread ▸ hs.get, fun j hj hget => h.runs j hj ▸ hs.past j hj (h.thread ▸ hget)⟩

theorem Solo.goesOn (hs : s.Solo i) {v : CELLTaskServer τ} (h : (s.view i).GoesOn v) :
    ∃ t, s.Frame t i ∧ t.view i = v := by
  induction h with
  | refl => exact ⟨s, ⟨.refl s, rfl, fun _ _ => rfl⟩, rfl⟩
  | @tail v w _ hstep ih =>
    obtain ⟨t, ht, rfl⟩ := ih
    have hsolo := ht.solo hs
    obtain ⟨hquietly, hview⟩ := Quietly.onRun hsolo.get (fun j hj hget => by
      have hpast := hsolo.past j hj hget
      unfold RunPC.Past at hpast
      split at hpast <;> simp_all [RunPC.invalidates]) hstep.1 hstep.2
    refine ⟨_, ⟨ht.quietly.trans hquietly, ht.thread, fun j hj => ?_⟩, hview⟩
    exact (Function.update_of_ne hj ..).trans (ht.runs j hj)

/-- A worker that enters `OnRun` alone repeats what was executed. -/
theorem repeats_of_enter (hget : s.thread.workers[i]? = some (.callback .onCreate))
    (hpast : ∀ j, j ≠ i → s.thread.workers[j]? = some (.callback .onRun) → (s.runs j).Past)
    (hloop : s.runs i = .loop) (htasks : s.tasks = []) {x : CELLTask τ} (hx : x ∈ s.tasksBuf)
    (hexec : x ∈ s.executed) : ∃ u, s.Quietly u ∧ ¬u.executed.Nodup := by
  let t : TaskRounds τ := { s with thread := s.thread.setWorker i (.callback .onRun) }
  have hsolo : t.Solo i := by
    refine ⟨List.getElem?_set_self (List.getElem?_eq_some_iff.mp hget).1, fun j hj hgetj => ?_⟩
    refine hpast j hj ?_
    rw [← hgetj]
    exact (List.getElem?_set_ne (Ne.symm hj)).symm
  obtain ⟨v, hv, htwice⟩ := CELLTaskServer.goesOn_repeat (s := t.view i) hloop htasks hx hexec
  obtain ⟨u, hu, rfl⟩ := hsolo.goesOn hv
  exact ⟨u, (Quietly.enter hget).trans hu.quietly, htwice⟩

/-- A worker is about to enter `OnRun` beside another. -/
structure Beside (s : TaskRounds τ) (j n : ℕ) : Prop where
  ne : j ≠ n
  solo : s.Solo j
  get : s.thread.workers[n]? = some (.callback .onCreate)
  loop : s.runs n = .loop

theorem Beside.addTask {j n : ℕ} (hs : s.Beside j n) (task : τ) : (s.addTask task).Beside j n :=
  ⟨hs.ne, ⟨hs.solo.get, hs.solo.past⟩, hs.get, hs.loop⟩

theorem Frame.beside {j n : ℕ} (h : s.Frame t j) (hs : s.Beside j n) : t.Beside j n :=
  ⟨hs.ne, h.solo hs.solo, h.thread ▸ hs.get, (h.runs n hs.ne.symm).trans hs.loop⟩

/-- The one executes a new task in its drain, and the other finds it in the buffer. -/
theorem Beside.repeats_drain {j n : ℕ} (hs : s.Beside j n) (hloop : ¬(s.runs j).InLoop)
    (hpast : ¬(s.runs j).Past) (htasks : s.tasks = [])
    (hdrain : ∀ k, s.runs j = .drain (some k) ∨ s.runs j = .drainNext k → k < s.tasksBuf.length)
    (task : τ) : ∃ u, s.Quietly u ∧ ¬u.executed.Nodup := by
  have ht := hs.addTask task
  obtain ⟨v, hv, hrun, hvtasks, hx, hexec⟩ :=
    CELLTaskServer.drained (s := (s.addTask task).view j) rfl hloop hpast hdrain
  obtain ⟨t, hframe, rfl⟩ := ht.solo.goesOn hv
  have ht' := hframe.beside ht
  obtain ⟨u, hu, htwice⟩ := repeats_of_enter ht'.get (fun k hk hget => by
    by_cases hkj : k = j
    · subst hkj
      have hrun' : t.runs k = .drain none := hrun
      rw [hrun']
      trivial
    · exact ht'.solo.past k hkj hget) ht'.loop (hvtasks.trans htasks) hx hexec
  exact ⟨u, ((Quietly.addTask s task).trans hframe.quietly).trans hu, htwice⟩

theorem invalidates_eq_false {r r' : RunPC} (h : r ≠ .handOver) (h' : r ≠ .clear) :
    r.invalidates r' = false := by
  unfold RunPC.invalidates
  split <;> simp_all

/-- A worker that takes nothing over and clears nothing may go on beside others. -/
theorem Quietly.harmless (hget : s.thread.workers[i]? = some (.callback .onRun)) {r : RunPC}
    (hr : (s.view i).run = r) (hne : r ≠ .handOver ∧ r ≠ .clear ∧ r ≠ .ended)
    {v : CELLTaskServer τ} (h : (s.view i).onRun [] = some v) :
    ∃ t, s.Quietly t ∧ t.thread.workers[i]? = some (.callback .onRun) ∧ t.view i = v := by
  obtain rfl : s.runs i = r := hr
  obtain ⟨hquietly, hview⟩ :=
    Quietly.onRun hget (fun _ _ _ => invalidates_eq_false hne.1 hne.2.1) hne.2.2 h
  exact ⟨_, hquietly, hget, hview⟩

/-- A worker executes the first task it finds. -/
theorem Quietly.finds (hget : s.thread.workers[i]? = some (.callback .onRun))
    (hrun : s.runs i = .loop) (hisRun : s.thread.isRun = true) (hbuf : s.tasksBuf = [])
    {x : CELLTask τ} {xs : List (CELLTask τ)} (htasks : s.tasks = x :: xs) :
    ∃ u, s.Quietly u ∧ u.executed = s.executed ++ [x] := by
  let v : RunPC → CELLTaskServer τ := fun r => { s.view i with run := r }
  have h₁ : (s.view i).onRun [] = some (v .testBuf) := by
    simp [CELLTaskServer.onRun, view, hrun, hisRun, v]
  obtain ⟨s₁, hq₁, hget₁, hv₁⟩ := Quietly.harmless hget hrun (by simp) h₁
  have h₂ : (s₁.view i).onRun [] = some (v .testTasks) := by
    rw [hv₁]
    simp [CELLTaskServer.onRun, view, hbuf, v]
  obtain ⟨s₂, hq₂, hget₂, hv₂⟩ := Quietly.harmless hget₁ (congrArg _ hv₁) (by simp [v]) h₂
  have h₃ : (s₂.view i).onRun [] = some (v (.exec 0)) := by
    rw [hv₂]
    simp [CELLTaskServer.onRun, view, htasks, v]
  obtain ⟨s₃, hq₃, hget₃, hv₃⟩ := Quietly.harmless hget₂ (congrArg _ hv₂) (by simp [v]) h₃
  have h₄ : (s₃.view i).onRun [] = some { v (.exec 1) with executed := s.executed ++ [x] } := by
    rw [hv₃]
    simp [CELLTaskServer.onRun, view, htasks, v, CELLTaskServer.execute_nil]
  obtain ⟨s₄, hq₄, -, hv₄⟩ := Quietly.harmless hget₃ (congrArg _ hv₃) (by simp [v]) h₄
  exact ⟨s₄, ((hq₁.trans hq₂).trans hq₃).trans hq₄, congrArg CELLTaskServer.executed hv₄⟩

/-- The one executes a new task in its loop, and the other does so before the list is
cleared. -/
theorem Beside.repeats_loop {j n : ℕ} (hs : s.Beside j n) (hrun : s.runs j = .loop)
    (htasks : s.tasks = []) (hisRun : s.thread.isRun = true) (task : τ) :
    ∃ u, s.Quietly u ∧ ¬u.executed.Nodup := by
  have ht := hs.addTask task
  let buf := s.tasksBuf ++ [⟨s.added.length, task⟩]
  have hne : buf ≠ [] := by simp [buf]
  have htake := CELLTaskServer.goesOn_takeOver (s := (s.addTask task).view j) hrun htasks hne hisRun
  have hexec := CELLTaskServer.goesOn_exec
    (s := { (s.addTask task).view j with tasks := buf, tasksBuf := [], run := .exec 0 }) rfl
    (k := buf.length) (le_refl _)
  obtain ⟨t, hframe, hview⟩ := ht.solo.goesOn (htake.trans hexec)
  have ht' := hframe.beside ht
  have htbuf : t.tasks = buf := congrArg CELLTaskServer.tasks hview
  have htasksBuf : t.tasksBuf = [] := congrArg CELLTaskServer.tasksBuf hview
  have hexecuted : t.executed = s.executed ++ buf := by
    have h := congrArg CELLTaskServer.executed hview
    rw [List.take_length] at h
    exact h
  obtain ⟨x, xs, hxs⟩ := List.exists_cons_of_ne_nil hne
  let t' : TaskRounds τ := { t with thread := t.thread.setWorker n (.callback .onRun) }
  have hget : t'.thread.workers[n]? = some (.callback .onRun) :=
    List.getElem?_set_self (List.getElem?_eq_some_iff.mp ht'.get).1
  have hisRun' : t'.thread.isRun = true := by
    change t.thread.isRun = true
    rw [hframe.thread]
    exact hisRun
  obtain ⟨u, hu, huexec⟩ :=
    Quietly.finds hget ht'.loop hisRun' htasksBuf (htbuf.trans hxs)
  refine ⟨u, (((Quietly.addTask s task).trans hframe.quietly).trans
    (Quietly.enter ht'.get)).trans hu, fun hnodup => ?_⟩
  rw [huexec] at hnodup
  refine List.disjoint_of_nodup_append hnodup ?_ (List.mem_singleton_self x)
  change x ∈ t.executed
  rw [hexecuted, hxs]
  exact List.mem_append_right _ List.mem_cons_self

/-- Two workers that use the lists execute a new task both. -/
theorem Beside.repeats {j n : ℕ} (hs : s.Beside j n) (hpast : ¬(s.runs j).Past)
    (honce : (s.view j).Once) (task : τ) : ∃ u, s.Quietly u ∧ ¬u.executed.Nodup := by
  by_cases hloop : (s.runs j).InLoop
  · obtain ⟨v, hv, hrun, htasks⟩ :=
      CELLTaskServer.comesToLoop (s := s.view j) hloop (fun h => honce.tasks (.inr h))
    obtain ⟨t, hframe, rfl⟩ := hs.solo.goesOn hv
    have ht := hframe.beside hs
    by_cases hisRun : t.thread.isRun = true
    · obtain ⟨u, hu, htwice⟩ := ht.repeats_loop hrun htasks hisRun task
      exact ⟨u, hframe.quietly.trans hu, htwice⟩
    · -- the worker sees that it is stopped
      have hstep : (t.view j).onRun [] = some { t.view j with run := .drainBegin } := by
        have hrun' : (t.view j).run = .loop := hrun
        have hstop : ¬(t.view j).thread.isRun = true := hisRun
        simp only [CELLTaskServer.onRun, hrun', if_neg hstop]
      have hgoes : (t.view j).GoesOn { t.view j with run := .drainBegin } := by
        have hne : (t.view j).run ≠ .ended := by
          rw [hrun]
          simp
        exact .single ⟨hne, hstep⟩
      obtain ⟨w, hframe', hview⟩ := ht.solo.goesOn hgoes
      have hw := hframe'.beside ht
      have hwrun : w.runs j = .drainBegin := congrArg CELLTaskServer.run hview
      have hwtasks : w.tasks = [] := (congrArg CELLTaskServer.tasks hview).trans htasks
      obtain ⟨u, hu, htwice⟩ := hw.repeats_drain (by simp [hwrun, RunPC.InLoop])
        (by simp [hwrun, RunPC.Past]) hwtasks (by simp [hwrun]) task
      exact ⟨u, (hframe.quietly.trans hframe'.quietly).trans hu, htwice⟩
  · exact hs.repeats_drain hloop hpast (honce.tasks (.inl hloop)) honce.drain task

/-! ## The launch -/

/-- From here on no task is executed twice, unless another worker is launched beside one
that is in `OnRun` or while an executed task is in the buffer. -/
def KeepsOnce (s : TaskRounds τ) : Prop :=
  ∀ t, s.Quietly t → t.executed.Nodup

theorem Sound.keepsOnce (hs : s.Sound) : s.KeepsOnce := by
  rintro t ⟨tr, hrun, htr⟩
  exact (hrun.invariant_of_steps (P := fun s a => s.Alone a ∧ s.Fresh a)
    (fun _ _ _ hs ha hstep => hs.step ha.1 ha.2 hstep) htr hs).executed

/-- The server behind a launch. -/
structure Launched (s t : TaskRounds τ) (n : ℕ) : Prop where
  get : t.thread.workers[n]? = some (.callback .onCreate)
  old : ∀ j, j ≠ n → t.thread.workers[j]? = s.thread.workers[j]?
  none : s.thread.workers[n]? = none
  runs : t.runs = s.runs
  tasks : t.tasks = s.tasks
  tasksBuf : t.tasksBuf = s.tasksBuf
  added : t.added = s.added
  executed : t.executed = s.executed

theorem Launched.of_step (hspawn : s.thread.owner = .startSpawn)
    (h : (taskRounds τ).step s .owner (.ok t)) : s.Launched t s.thread.workers.length := by
  obtain ⟨thread, howner, rfl⟩ := onThread_eq (step_iff.mp h)
  have hworkers := launched hspawn howner
  refine ⟨?_, fun j hj => ?_, List.getElem?_eq_none (le_refl _), rfl, rfl, rfl, rfl, rfl⟩
  · change thread.workers[_]? = _
    rw [hworkers, List.getElem?_append_right (le_refl _), Nat.sub_self]
    rfl
  · change thread.workers[j]? = _
    rw [hworkers]
    rcases lt_or_gt_of_ne hj with hlt | hgt
    · exact List.getElem?_append_left hlt
    · rw [List.getElem?_eq_none hgt.le, List.getElem?_eq_none]
      rw [List.length_append, List.length_singleton]
      exact hgt

theorem Sound.loop_of_none (hs : s.Sound) (hnone : s.thread.workers[i]? = none) :
    s.runs i = .loop :=
  hs.runs i fun w hw => by
    rw [hnone] at hw
    exact absurd hw nofun

/-- A launch beside a worker that is before or in `OnRun`. -/
theorem Sound.repeats_of_active (hs : s.Sound) {j n : ℕ} (hj : s.Active j)
    (h : s.Launched t n) (task : τ) : ∃ u, t.Quietly u ∧ ¬u.executed.Nodup := by
  obtain ⟨w, hw, hact⟩ := hj
  have hactive : s.Active j := ⟨w, hw, hact⟩
  have hne : j ≠ n := by
    rintro rfl
    rw [h.none] at hw
    exact absurd hw nofun
  have hgetj : t.thread.workers[j]? = some w := (h.old j hne).trans hw
  have hloop : t.runs n = .loop := by
    rw [h.runs]
    exact hs.loop_of_none h.none
  have hpast : ∀ k, k ≠ j → t.thread.workers[k]? = some (.callback .onRun) → (t.runs k).Past := by
    intro k hk hget
    have hkn : k ≠ n := by
      rintro rfl
      rw [h.get] at hget
      exact absurd (Option.some.inj hget) (by simp)
    by_contra hnot
    have hk' := hs.last k ⟨_, (h.old k hkn).symm.trans hget, .inr ⟨rfl, h.runs ▸ hnot⟩⟩
    have hj' := hs.last j hactive
    omega
  have honce : (t.view j).Once :=
    (hs.active j hactive).congr h.tasks h.tasksBuf (congrFun h.runs j) h.added h.executed
  rcases hact with rfl | ⟨rfl, hrun⟩
  · -- it enters `OnRun` first
    let u : TaskRounds τ := { t with thread := t.thread.setWorker j (.callback .onRun) }
    have hother : ∀ k, k ≠ j → u.thread.workers[k]? = t.thread.workers[k]? := fun k hk =>
      List.getElem?_set_ne (Ne.symm hk)
    have hgetu : u.thread.workers[j]? = some (.callback .onRun) :=
      List.getElem?_set_self (List.getElem?_eq_some_iff.mp hgetj).1
    have hu : u.Beside j n := ⟨hne, ⟨hgetu, fun k hk hget => hpast k hk (hother k hk ▸ hget)⟩,
      (hother n hne.symm).trans h.get, hloop⟩
    have hrun : u.runs j = .loop := by
      change t.runs j = .loop
      rw [h.runs]
      exact hs.runs j fun w hw' => Option.some.inj (hw'.symm.trans hw)
    obtain ⟨x, hx, htwice⟩ := hu.repeats (by simp [hrun, RunPC.Past])
      (honce.congr rfl rfl rfl rfl rfl) task
    exact ⟨x, (Quietly.enter hgetj).trans hx, htwice⟩
  · have ht : t.Beside j n := ⟨hne, ⟨hgetj, hpast⟩, h.get, hloop⟩
    exact ht.repeats (h.runs ▸ hrun) honce task

/-- A launch while a task that was executed is in the buffer. -/
theorem Sound.repeats_of_buffered (hs : s.Sound) (halone : ∀ j, ¬s.Active j) {n : ℕ}
    (h : s.Launched t n) {x : CELLTask τ} (hx : x ∈ s.tasksBuf) (hexec : x ∈ s.executed) :
    ∃ u, t.Quietly u ∧ ¬u.executed.Nodup := by
  refine repeats_of_enter h.get (fun j hj hget => ?_) ?_ ?_ (h.tasksBuf ▸ hx) (h.executed ▸ hexec)
  · by_contra hpast
    exact halone j ⟨_, (h.old j hj).symm.trans hget, .inr ⟨rfl, h.runs ▸ hpast⟩⟩
  · rw [h.runs]
    exact hs.loop_of_none h.none
  · rw [h.tasks]
    exact (hs.rest halone).tasks (.inl not_false)

theorem Sound.alone_and_fresh [Nonempty τ] (hs : s.Sound) (h : (taskRounds τ).step s a (.ok t))
    (ht : t.KeepsOnce) : s.Alone a ∧ s.Fresh a := by
  cases a with
  | owner =>
    have halone : s.Alone .owner := by
      intro hspawn j hj
      obtain ⟨task⟩ := ‹Nonempty τ›
      obtain ⟨u, hu, htwice⟩ := hs.repeats_of_active hj (.of_step hspawn h) task
      exact htwice (ht u hu)
    refine ⟨halone, fun hspawn x hx hexec => ?_⟩
    obtain ⟨u, hu, htwice⟩ := hs.repeats_of_buffered (halone hspawn) (.of_step hspawn h) hx hexec
    exact htwice (ht u hu)
  | addTask _ | start | close | worker _ _ => exact ⟨trivial, trivial⟩

end TaskRounds

open TaskRounds in
/-- Restarting a task server. No task is executed twice in any state of a run, and none will
be, exactly when each worker of the run is launched where no other is before or in `OnRun`,
and where no task that was executed is in the buffer. -/
theorem restart_repeats_no_task_iff [Nonempty τ] {s₀ s : TaskRounds τ}
    {tr : List (TaskRounds τ × RoundsAct τ)} (hinit : (taskRounds τ).init s₀)
    (hrun : (taskRounds τ).Run s₀ tr s) :
    ((∀ x ∈ tr, x.1.KeepsOnce) ∧ s.KeepsOnce) ↔ ∀ x ∈ tr, x.1.Alone x.2 ∧ x.1.Fresh x.2 := by
  obtain rfl : s₀ = .new := hinit
  have hstep : ∀ (s : TaskRounds τ) a t, s.Sound → s.Alone a ∧ s.Fresh a →
      (taskRounds τ).step s a (.ok t) → t.Sound := fun _ _ _ hs ha hst => hs.step ha.1 ha.2 hst
  constructor
  · rintro ⟨htr, hs⟩
    induction hrun with
    | nil => simp
    | @snoc t u tr a hrun hst ih =>
      simp only [List.mem_append, List.mem_singleton, or_imp, forall_and, forall_eq] at htr ⊢
      have hall := ih htr.1 htr.2
      have ht : t.Sound := hrun.invariant_of_steps hstep hall .new
      have hlast := ht.alone_and_fresh hst hs
      exact ⟨⟨fun x hx => (hall x hx).1, hlast.1⟩, fun x hx => (hall x hx).2, hlast.2⟩
  · intro hall
    refine ⟨fun x hx => ?_, (hrun.invariant_of_steps hstep hall .new).keepsOnce⟩
    obtain ⟨pre, post, hpre, rfl⟩ := hrun.of_mem hx
    exact (hpre.invariant_of_steps hstep (fun y hy => hall y (by simp [hy])) .new).keepsOnce

/-- The callbacks of all workers are over, and no task of the buffer was executed. -/
def TaskRounds.Orderly (s : TaskRounds τ) : Prop :=
  s.thread.owner = .startSpawn →
    (∀ w ∈ s.thread.workers, w.Over) ∧ ∀ x ∈ s.tasksBuf, x ∉ s.executed

instance [DecidableEq τ] (s : TaskRounds τ) : Decidable s.Orderly :=
  inferInstanceAs (Decidable (_ → _))

theorem TaskRounds.Orderly.launches {s : TaskRounds τ} (hs : s.Orderly)
    (a : RoundsAct τ) : s.Alone a ∧ s.Fresh a := by
  cases a with
  | owner =>
    refine ⟨fun hspawn i hactive => ?_, fun hspawn => (hs hspawn).2⟩
    obtain ⟨w, hget, hw⟩ := hactive
    have hover := (hs hspawn).1 w (List.mem_of_getElem? hget)
    rcases hw with rfl | ⟨rfl, -⟩ <;> exact hover
  | addTask | start | close | worker => exact ⟨trivial, trivial⟩

/-- Two rounds, with a task in each : the loop of the first worker executes the first one, and
the drain of the second worker the second one. -/
theorem restart_repeats_no_task_iff_two : ∃ tr s, (taskRounds Unit).Run .new tr s ∧
    s.thread.workers.length = 2 ∧ s.executed.length = 2 ∧ (∀ x ∈ tr, x.1.KeepsOnce) ∧
      s.KeepsOnce := by
  let start : List (RoundsAct Unit) := .start :: .replicate 5 .owner
  let close : List (RoundsAct Unit) := .close :: .replicate 4 .owner
  let acts : List (RoundsAct Unit) :=
    start ++ [.addTask ()] ++ .replicate 8 (.worker 0 []) ++ close ++
      .replicate 7 (.worker 0 []) ++ [.owner, .owner] ++
      start ++ [.worker 1 []] ++ close ++ [.addTask ()] ++ .replicate 9 (.worker 1 [])
  let next? : TaskRounds Unit → RoundsAct Unit → Option (TaskRounds Unit) := fun s a =>
    if s.Orderly then Machine.next? (fun _ _ => True) (fun _ => TaskRounds.act) 0 s a else none
  have heval : (acts.foldlM next? .new).map
      (fun s => (s.thread.workers.length, s.executed.length)) = some (2, 2) := by
    decide +kernel
  have hstep : ∀ s a t, next? s a = some t →
      (taskRounds Unit).step s a (.ok t) ∧ s.Alone a ∧ s.Fresh a := by
    intro s a t hnext
    dsimp only [next?] at hnext
    split at hnext
    · rename_i horderly
      exact ⟨Machine.step_of_next? _ hnext, horderly.launches a⟩
    · cases hnext
  obtain ⟨tr, s, hrun, -, hall, hlengths⟩ := Machine.Run.of_foldlM_steps hstep heval
  obtain ⟨hworkers, hexecuted⟩ := Prod.mk.inj hlengths
  exact ⟨tr, s, hrun, hworkers, hexecuted, (restart_repeats_no_task_iff rfl hrun).mpr hall⟩

/-- A task that the drain has executed is executed again behind the next `Start`. -/
theorem not_restart_repeats_no_task : ¬∀ s : TaskRounds Unit,
    (taskRounds Unit).Reachable s → s.executed.Nodup := by
  intro hall
  let start : List (RoundsAct Unit) := .start :: .replicate 5 .owner
  let acts : List (RoundsAct Unit) :=
    start ++ [.addTask (), .close, .owner, .owner, .owner] ++ .replicate 10 (.worker 0 []) ++
      [.owner, .owner] ++ start ++ .replicate 6 (.worker 1 [])
  let next? := Machine.next? (fun _ _ => True) (fun _ => TaskRounds.act (τ := Unit)) 0
  have heval : (acts.foldlM next? .new).map (fun s => decide s.executed.Nodup) = some false := by
    decide +kernel
  obtain ⟨tr, s, hrun, -, htwice⟩ :=
    Machine.Run.of_next?_map (· = TaskRounds.new) heval
  exact of_decide_eq_false htwice (hall s ⟨_, tr, rfl, hrun⟩)

end CellNet
