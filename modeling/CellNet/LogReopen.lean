import CellNet.LogLines

/-!
# A second file for the log

`setLogPath` with a file open adds a line, closes the file and forgets it, in this order.
The line it adds itself is enough for the worker to be in the block of `EchoReal` that
writes to the file when the file is closed : from every reachable state in which the worker
runs there are steps to that point (`log_reopen_unsafe`). Nothing else is asked of the
other threads.
-/

namespace CellNet

theorem LogTask.calls_ne_nil (task : LogTask) : task.calls ≠ [] := by
  cases task <;> exact List.cons_ne_nil _ _

/-- A step of the thread in `setLogPath`, or of the worker. -/
def LogAct.isOwn : LogAct → Bool
  | .caller _ _ | .worker _ => true
  | _ => false

namespace CELLLog

variable {s t : CELLLog} {a : LogAct} {c : EchoReal} {calls : List EchoReal}

/-- Steps of the thread in `setLogPath` and of the worker lead to a state where the next step
of the worker uses a closed file. -/
def Racy (s : CELLLog) : Prop :=
  ∃ tr t, cellLog.Run s tr t ∧ (∀ x ∈ tr, x.2.isOwn = true) ∧
    ∀ time, cellLog.step t (.worker time) (.error .useAfterFree)

theorem Racy.of_act (h : s.act a = some (.ok t)) (ha : a.isOwn = true) (ht : t.Racy) :
    s.Racy := by
  obtain ⟨tr, u, hrun, hown, hfault⟩ := ht
  exact ⟨_, u, Machine.Run.cons h hrun, List.forall_mem_cons.mpr ⟨ha, hown⟩, hfault⟩

/-- `setLogPath` is about to close the file. -/
structure Closing (s : CELLLog) : Prop where
  caller : ∃ args, s.caller = .pathClose args
  file : ∃ f file, s.logFile = some f ∧ s.files[f]? = some file ∧ file.isOpen = true

/-- `_logFile` has been closed. -/
def Closed (s : CELLLog) : Prop :=
  ∃ f file, s.logFile = some f ∧ s.files[f]? = some file ∧ file.isOpen = false

theorem Closed.fprintf (hs : s.Closed) (str : String) : s.fprintf str = .error .useAfterFree := by
  obtain ⟨f, file, hf, hfile, hclosed⟩ := hs
  rw [CELLLog.fprintf, hf]
  dsimp only
  rw [hfile]
  dsimp only
  rw [if_neg (Bool.eq_false_iff.mp hclosed)]

theorem Closed.fflush (hs : s.Closed) : s.fflush = .error .useAfterFree := by
  obtain ⟨f, file, hf, hfile, hclosed⟩ := hs
  rw [CELLLog.fflush, hf]
  dsimp only
  rw [hfile]
  dsimp only
  rw [if_neg (Bool.eq_false_iff.mp hclosed)]

/-- The file is closed. -/
theorem Closing.fclose (hs : s.Closing) : ∃ t, s.act (.caller "" false) = some (.ok t) ∧
    t.Closed ∧ t.calls = s.calls ∧ t.echo = s.echo := by
  obtain ⟨⟨args, hpc⟩, f, file, hf, hfile, hopen⟩ := hs
  have hclose : s.fclose = .ok { s with files := s.files.set f { file with isOpen := false } } := by
    rw [CELLLog.fclose, hf]
    dsimp only
    rw [hfile]
    dsimp only
    rw [if_pos hopen]
  have hget := List.getElem?_set_self (a := { file with isOpen := false })
    (List.getElem?_eq_some_iff.mp hfile).1
  refine ⟨{ s with files := s.files.set f { file with isOpen := false }, caller := .pathNull args },
    ?_, ⟨f, _, hf, hget, rfl⟩, rfl, rfl⟩
  rw [act, callerStep, hpc]
  dsimp only
  rw [hclose]
  rfl

/-- The worker has come to a statement that uses the file. -/
theorem Closing.racy (hs : s.Closing) (hcalls : s.calls = c :: calls)
    (hecho : s.echo = .fileType ∨ s.echo = .fileTime ∨ s.echo = .fileText ∨
      (s.echo = .fileBr ∧ c.br = true) ∨ s.echo = .flush) : s.Racy := by
  obtain ⟨t, hact, hclosed, hcalls', hecho'⟩ := hs.fclose
  refine .of_act hact rfl ⟨[], t, .nil t, by simp, fun time => ?_⟩
  have hworker : t.act (.worker time) = some (t.echoReal c calls time) := by
    rw [act, workerStep, hcalls', hcalls]
  refine hworker.trans (congrArg some ?_)
  rw [echoReal, hecho']
  rcases hecho with hecho | hecho | hecho | ⟨hecho, hbr⟩ | hecho <;> rw [hecho] <;> dsimp only
  · rw [hclosed.fprintf]
    rfl
  · rw [hclosed.fprintf]
    rfl
  · rw [hclosed.fprintf]
    rfl
  · rw [if_pos hbr, hclosed.fprintf]
    rfl
  · rw [hclosed.fflush]
    rfl

theorem act_worker {time : String} (hcalls : s.calls = c :: calls)
    (h : s.echoReal c calls time = .ok t) : s.act (.worker time) = some (.ok t) := by
  rw [act, workerStep, hcalls]
  exact congrArg some h

/-- At the start of a call, the worker comes into the block that writes to the file. -/
theorem Closing.racy_of_test (hs : s.Closing) (hcalls : s.calls = c :: calls)
    (hecho : s.echo = .test) : s.Racy := by
  obtain ⟨f, file, hf, hfile, hopen⟩ := hs.file
  have hstep : s.echoReal c calls "" = .ok { s with echo := .fileType } := by
    rw [echoReal, hecho]
    dsimp only
    rw [hf]
    rfl
  refine .of_act (act_worker hcalls hstep) rfl ?_
  exact Closing.racy ⟨hs.caller, hs.file⟩ hcalls (Or.inl rfl)

/-- In front of a task, the worker begins its first call. -/
theorem Closing.racy_of_atTask (hs : s.Closing) (hcalls : s.calls = []) (hecho : s.echo = .test)
    (hat : s.server.AtTask) : s.Racy := by
  obtain ⟨j, task, hworkers, hrun, htask⟩ := hat
  obtain ⟨c, calls, htaskCalls⟩ := List.exists_cons_of_ne_nil (LogTask.calls_ne_nil task.body)
  have hstep : s.server.workerStep [] =
      some { s.server.execute task [] with run := .exec (j + 1) } := by
    rw [CELLTaskServer.workerStep, hworkers]
    dsimp only [List.getElem?_cons_zero]
    rw [CELLTaskServer.onRun, hrun]
    dsimp only
    rw [htask]
  have hact : s.act (.worker "") = some (.ok { s with
      server := { s.server.execute task [] with run := .exec (j + 1) }, calls := c :: calls }) := by
    rw [act, workerStep, hcalls]
    dsimp only
    rw [hstep, Option.map_some]
    simp [CELLTaskServer.execute, logCalls, htaskCalls]
  exact .of_act hact rfl (Closing.racy_of_test ⟨hs.caller, hs.file⟩ rfl hecho)

/-- Between two tasks, the worker comes to the next one. -/
theorem Closing.racy_of_between (hs : s.Closing) (hcalls : s.calls = []) (hecho : s.echo = .test)
    (hcomes : s.server.ComesToTask) : s.Racy := by
  obtain ⟨server, hidles, hat⟩ := hcomes
  generalize hserver : s.server = server₀ at hidles
  induction hidles using Relation.ReflTransGen.head_induction_on generalizing s with
  | refl => exact hs.racy_of_atTask hcalls hecho (hserver ▸ hat)
  | @head server₁ server₂ hstep hrest ih =>
    obtain ⟨hwork, hexecuted⟩ := hstep
    have hact : s.act (.worker "") = some (.ok { s with
        server := server₂, calls := [] }) := by
      rw [act, workerStep, hcalls]
      dsimp only
      rw [hserver, hwork, Option.map_some, hexecuted, List.drop_length]
      rfl
    exact .of_act hact rfl (ih ⟨hs.caller, hs.file⟩ rfl hecho rfl)

/-- The end of a call. Behind it is another one, or the next task. -/
theorem Closing.racy_of_br (hs : s.Closing) (hcalls : s.calls = c :: calls) (hecho : s.echo = .br)
    (hcomes : s.server.ComesToTask) : s.Racy := by
  have hstep : s.echoReal c calls "" =
      .ok { if c.br then s.printf "\n" else s with echo := .test, calls } := by
    rw [echoReal, hecho]
  have hclosing : Closing { if c.br then s.printf "\n" else s with echo := .test, calls } := by
    split <;> exact ⟨hs.caller, hs.file⟩
  have hserver : CELLLog.server { if c.br then s.printf "\n" else s with
      echo := .test, calls } = s.server := by
    split <;> rfl
  refine .of_act (act_worker hcalls hstep) rfl ?_
  cases calls with
  | nil => exact hclosing.racy_of_between rfl rfl (hserver ▸ hcomes)
  | cons c' calls' => exact hclosing.racy_of_test rfl rfl

/-- Wherever the worker is, it comes to a statement that uses the file. -/
theorem Closing.racy_of_comes (hs : s.Closing) (hecho : s.calls = [] → s.echo = .test)
    (hcomes : s.server.ComesToTask) : s.Racy := by
  cases hcalls : s.calls with
  | nil => exact hs.racy_of_between hcalls (hecho hcalls) hcomes
  | cons c calls =>
    cases hpc : s.echo with
    | test => exact hs.racy_of_test hcalls hpc
    | fileType => exact hs.racy hcalls (Or.inl hpc)
    | fileTime => exact hs.racy hcalls (Or.inr (Or.inl hpc))
    | fileText => exact hs.racy hcalls (Or.inr (Or.inr (Or.inl hpc)))
    | flush => exact hs.racy hcalls (Or.inr (Or.inr (Or.inr (Or.inr hpc))))
    | fileBr =>
      by_cases hbr : c.br = true
      · exact hs.racy hcalls (Or.inr (Or.inr (Or.inr (Or.inl ⟨hpc, hbr⟩))))
      · have hstep : s.echoReal c calls "" = .ok { s with echo := .flush } := by
          rw [echoReal, hpc]
          dsimp only
          rw [if_neg hbr]
          rfl
        refine .of_act (act_worker hcalls hstep) rfl ?_
        exact Closing.racy ⟨hs.caller, hs.file⟩ hcalls (Or.inr (Or.inr (Or.inr (Or.inr rfl))))
    | br => exact hs.racy_of_br hcalls hpc hcomes
    | text =>
      have hstep : s.echoReal c calls "" =
          .ok { s.printf (c.text.format s.logPath) with echo := .br } := by
        rw [echoReal, hpc]
      refine .of_act (act_worker hcalls hstep) rfl ?_
      exact Closing.racy_of_br ⟨hs.caller, hs.file⟩ hcalls rfl hcomes
    | type =>
      have hstep : s.echoReal c calls "" = .ok { s.printf c.type with echo := .text } := by
        rw [echoReal, hpc]
      have hstep' : echoReal { s.printf c.type with echo := .text } c calls "" =
          .ok { (s.printf c.type).printf (c.text.format s.logPath) with echo := .br } := rfl
      refine .of_act (act_worker hcalls hstep) rfl (.of_act (act_worker hcalls hstep') rfl ?_)
      exact Closing.racy_of_br ⟨hs.caller, hs.file⟩ hcalls rfl hcomes

end CELLLog

/-- A log must not be given a second file. In whatever state there is one, if `setLogPath`
is called then, with any arguments, there are steps of the caller and the worker alone after
which the worker uses the file that `setLogPath` has closed. -/
theorem log_reopen_unsafe {s : CELLLog} (hreach : cellLog.Reachable s) (hidle : s.caller = .idle)
    (hfile : s.logFile ≠ none) (args : SetLogPath) :
    ∃ t tr u, cellLog.step s (.setLogPath args) (.ok t) ∧ cellLog.Run t tr u ∧
      (∀ x ∈ tr, x.2.isOwn = true) ∧
      ∀ time, cellLog.step u (.worker time) (.error .useAfterFree) := by
  have hs : s.Sound := hreach.invariant (fun _ h => h ▸ .new) fun _ _ _ hs hst => hs.step hst
  obtain ⟨f, hf⟩ := Option.ne_none_iff_exists'.mp hfile
  obtain ⟨file, hget, hopen⟩ := hs.file f hf
  have hopen : file.isOpen = true := by
    rcases hopen with hopen | ⟨args, hpc⟩ | hpc
    · exact hopen
    · rw [hidle] at hpc
      cases hpc
    · rw [hidle] at hpc
      cases hpc
  have hcaller := hs.caller
  rw [hidle] at hcaller
  obtain ⟨hstarted, hclose, howner⟩ := hcaller
  have hset : s.act (.setLogPath args) = some (.ok { s with caller := .pathTest args }) := by
    rw [CELLLog.act, if_pos hidle]
  have htest : CELLLog.act { s with caller := .pathTest args } (.caller "" false) =
      some (.ok { s with caller := .pathInfo args }) := by
    rw [CELLLog.act, CELLLog.callerStep]
    dsimp only
    rw [hf]
    rfl
  have hinfo : CELLLog.act { s with caller := .pathInfo args } (.caller "" false) =
      some (.ok { s.info (.text "CELLLog::setLogPath _logFile != nullptr") with
        caller := .pathClose args }) := rfl
  -- the line is pending now, so the worker comes to a task
  have hcomes : (s.info (.text "CELLLog::setLogPath _logFile != nullptr")).server.ComesToTask := by
    refine (hs.server.2.addTask _).comesToTask hstarted hclose howner ?_
    rw [hs.server.1.pending_addTask]
    exact List.append_ne_nil_of_right_ne_nil _ (List.cons_ne_nil _ _)
  have hclosing : CELLLog.Closing { s.info (.text "CELLLog::setLogPath _logFile != nullptr") with
      caller := .pathClose args } := ⟨⟨args, rfl⟩, f, file, hf, hget, hopen⟩
  obtain ⟨tr, u, hrun, hown, hfault⟩ := CELLLog.Racy.of_act htest rfl
    (.of_act hinfo rfl (hclosing.racy_of_comes hs.echo hcomes))
  exact ⟨_, tr, u, hset, hrun, hown, hfault⟩

/-- A file is opened, and then another one. -/
theorem log_reopen_unsafe_two : ∃ s t tr u,
    cellLog.step s (.setLogPath ⟨"second", "w", false⟩) (.ok t) ∧ cellLog.Run t tr u ∧
      (∀ x ∈ tr, x.2.isOwn = true) ∧
      ∀ time, cellLog.step u (.worker time) (.error .useAfterFree) := by
  let acts : List LogAct := List.replicate 7 (.caller "" false) ++
    [.setLogPath ⟨"first", "w", false⟩, .caller "" false, .caller "" false, .caller "" true,
      .caller "" false]
  let f : CELLLog → LogAct → Option CELLLog := fun s a => (s.act a).bind Except.toOption
  have hf : ∀ s a t, f s a = some t → cellLog.step s a (.ok t) := by
    intro s a t h
    obtain ⟨r, hact, hr⟩ := Option.bind_eq_some_iff.mp h
    exact hact.trans (congrArg some (Exec.toOption_eq_some.mp hr))
  have heval : (acts.foldlM f .new).map (fun s => (s.caller, s.logFile)) =
      some (.idle, some 0) := by
    decide +kernel
  obtain ⟨tr, s, hrun, -, hstate⟩ := Machine.Run.of_foldlM_map hf heval
  simp only [Prod.mk.injEq] at hstate
  obtain ⟨hidle, hfile⟩ := hstate
  have hne : s.logFile ≠ none := by
    rw [hfile]
    exact Option.some_ne_none 0
  exact ⟨s, log_reopen_unsafe ⟨.new, tr, rfl, hrun⟩ hidle hne _⟩

end CellNet
