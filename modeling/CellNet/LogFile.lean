import CellNet.LogLines

/-!
# The lines of the log are kept

What the terminal has is what the worker has executed (`Printing`). What a file has is
that from some call on (`Filing`), as long as it is the only file the log ever has
(`Once`) : then it is open wherever the worker is in the block that writes to it, since
the destructor only closes it when the task server has ended. `log_lines_kept` is the two
together.
-/

namespace CellNet

namespace CELLLog

variable {s t : CELLLog} {a : LogAct} {c : EchoReal} {calls : List EchoReal}

/-! ## The terminal -/

/-- `part` is what the worker has printed of the first call in `calls` at the place `echo`. -/
def PrintedPart (calls : List EchoReal) (echo : EchoPC) (part : List String) : Prop :=
  match calls, echo with
  | c :: _, .text => part = [c.type]
  | c :: _, .br => ∃ logPath, part = [c.type, c.text.format logPath]
  | _, _ => part = []

/-- The terminal has the finished calls of `EchoReal` and a part of the next one. -/
def Printing (s : CELLLog) : Prop :=
  ∃ done blocks part, logCalls s.server.executed = done ++ s.calls ∧
    List.Forall₂ EchoReal.Prints done blocks ∧ s.stdout = blocks.flatten ++ part ∧
    PrintedPart s.calls s.echo part

theorem Printing.new : Printing .new :=
  ⟨[], [], [], rfl, .nil, rfl, rfl⟩

theorem Printing.moved (hs : s.Printing) (h : s.Moved t) : t.Printing := by
  obtain ⟨done, blocks, part, hcalls, hblocks, hstdout, hpart⟩ := hs
  refine ⟨done, blocks, part, ?_, hblocks, h.stdout.trans hstdout, ?_⟩
  · rw [h.executed, h.calls]
    exact hcalls
  · rw [h.calls, h.echo]
    exact hpart

/-- Between two calls, nothing of the next one is printed. -/
theorem PrintedPart.test {part : List String} :
    PrintedPart calls .test part ↔ part = [] := by
  cases calls <;> rfl

theorem Printing.worked (hs : s.Printing) (hcalls : s.calls = []) (hecho : s.echo = .test)
    {server : CELLTaskServer LogTask} (h : s.server.executed <+: server.executed) :
    Printing { s with
      server, calls := logCalls (server.executed.drop s.server.executed.length) } := by
  obtain ⟨done, blocks, part, hdone, hblocks, hstdout, hpart⟩ := hs
  obtain ⟨more, hmore⟩ := h
  refine ⟨done, blocks, part, ?_, hblocks, hstdout, ?_⟩
  · rw [hcalls, List.append_nil] at hdone
    rw [← hmore, List.drop_left, ← hdone]
    exact List.flatMap_append
  · rw [hecho, PrintedPart.test] at hpart
    rw [hecho, PrintedPart.test]
    exact hpart

theorem Printing.echoed (hs : s.Printing) (hcalls : s.calls = c :: calls)
    (h : s.Echoed c calls t) : t.Printing := by
  obtain ⟨done, blocks, part, hdone, hblocks, hstdout, hpart⟩ := hs
  rw [hcalls] at hpart
  cases h with
  | test hpc =>
    rw [hpc] at hpart
    refine ⟨done, blocks, part, hdone, hblocks, hstdout, ?_⟩
    rw [hcalls]
    dsimp only
    split <;> exact hpart
  | fprintf hf hfile hopen hpc =>
    refine ⟨done, blocks, part, hdone, hblocks, hstdout, ?_⟩
    rw [hcalls]
    rcases hpc with ⟨hpc, -, rfl⟩ | ⟨hpc, -, rfl⟩ | ⟨hpc, -, rfl⟩ | ⟨hpc, -, rfl⟩ <;>
      rw [hpc] at hpart <;> exact hpart
  | skip hpc =>
    refine ⟨done, blocks, part, hdone, hblocks, hstdout, ?_⟩
    rw [hcalls]
    rcases hpc with ⟨hpc, -, rfl⟩ | ⟨hpc, rfl⟩ <;> rw [hpc] at hpart <;> exact hpart
  | printf hpc =>
    rcases hpc with ⟨hpc, rfl, rfl⟩ | ⟨hpc, rfl, rfl⟩
    · rw [hpc] at hpart
      obtain rfl : part = [] := hpart
      refine ⟨done, blocks, [c.type], hdone, hblocks, ?_, ?_⟩
      · rw [hstdout, List.append_nil]
      · rw [hcalls]
        rfl
    · rw [hpc] at hpart
      obtain rfl : part = [c.type] := hpart
      refine ⟨done, blocks, [c.type, c.text.format s.logPath], hdone, hblocks, ?_, ?_⟩
      · rw [hstdout, List.append_assoc]
        rfl
      · rw [hcalls]
        exact ⟨s.logPath, rfl⟩
  | done hpc =>
    rw [hpc] at hpart
    obtain ⟨logPath, rfl⟩ := hpart
    refine ⟨done ++ [c], blocks ++ [c.line [c.text.format logPath]], [], ?_, ?_, ?_, ?_⟩
    · rw [hdone, hcalls, List.append_assoc]
      rfl
    · exact List.rel_append hblocks (.cons ⟨logPath, rfl⟩ .nil)
    · rw [hstdout, List.flatten_append, List.flatten_singleton, List.append_nil, List.append_assoc]
      rfl
    · exact PrintedPart.test.mpr rfl


/-! ## The file -/

/-- In the block that writes to the file. -/
def InFile : EchoPC → Prop
  | .fileType | .fileTime | .fileText | .fileBr | .flush => True
  | .test | .type | .text | .br => False

/-- `part` is what the worker has written to the file of the first call in `calls` at the
place `echo`. -/
def FiledPart (calls : List EchoReal) (echo : EchoPC) (part : List String) : Prop :=
  match calls, echo with
  | c :: _, .fileTime => part = [c.type]
  | c :: _, .fileText => ∃ time, part = [c.type, "[" ++ time ++ "]"]
  | c :: _, .fileBr =>
    ∃ time logPath, part = [c.type, "[" ++ time ++ "]", c.text.format logPath]
  | _, _ => part = []

/-- The calls the file block is still ahead of. -/
def unfiled (calls : List EchoReal) : EchoPC → List EchoReal
  | .test | .fileType | .fileTime | .fileText | .fileBr => calls
  | .flush | .type | .text | .br => calls.tail

/-- From some call on, which was not added behind the opening, the file has every call of
`EchoReal` and a part of the next one. -/
def Filing (s : CELLLog) (file : FILE) : Prop :=
  ∃ skipped kept blocks part,
    logCalls s.server.executed = skipped ++ kept ++ unfiled s.calls s.echo ∧
    skipped <+: logCalls (s.server.added.take file.since) ∧
    List.Forall₂ EchoReal.Files kept blocks ∧ file.written = blocks.flatten ++ part ∧
    FiledPart s.calls s.echo part

theorem logCalls_mono {tasks tasks' : List (CELLTask LogTask)} (h : tasks <+: tasks') :
    logCalls tasks <+: logCalls tasks' := by
  obtain ⟨more, rfl⟩ := h
  exact ⟨logCalls more, List.flatMap_append.symm⟩

/-- A new file has nothing, and what was called before is skipped. -/
theorem Filing.opened (hs : s.Sound) (hprint : s.Printing) (hecho : ¬InFile s.echo)
    (path mode : String) : s.Filing ⟨path, mode, [], true, s.server.added.length⟩ := by
  obtain ⟨done, -, -, hdone, -⟩ := hprint
  have hskipped : unfiled s.calls s.echo <:+ logCalls s.server.executed := by
    refine List.IsSuffix.trans ?_ ⟨done, hdone.symm⟩
    cases s.echo <;> first | exact List.suffix_refl _ | exact List.tail_suffix _
  obtain ⟨skipped, hskipped⟩ := hskipped
  refine ⟨skipped, [], [], [], ?_, ?_, .nil, rfl, ?_⟩
  · rw [List.append_nil]
    exact hskipped.symm
  · rw [List.take_length]
    obtain ⟨hqueued, -⟩ := hs.server
    exact List.IsPrefix.trans ⟨_, hskipped⟩ (logCalls_mono hqueued.executed_prefix)
  · cases hpc : s.echo with
    | test | flush | type | text | br => cases s.calls <;> rfl
    | _ =>
      rw [hpc] at hecho
      exact absurd trivial hecho

theorem Filing.moved {file : FILE} (hs : s.Filing file) (h : s.Moved t) : t.Filing file := by
  obtain ⟨skipped, kept, blocks, part, hcalls, hskipped, hblocks, hwritten, hpart⟩ := hs
  refine ⟨skipped, kept, blocks, part, ?_, ?_, hblocks, hwritten, ?_⟩
  · rw [h.executed, h.calls, h.echo]
    exact hcalls
  · refine hskipped.trans (logCalls_mono ?_)
    obtain ⟨more, hmore⟩ := h.added
    rw [← hmore, List.take_append]
    exact List.prefix_append _ _
  · rw [h.calls, h.echo]
    exact hpart

/-- Between two calls, nothing of the next one is in the file. -/
theorem FiledPart.test {part : List String} : FiledPart calls .test part ↔ part = [] := by
  cases calls <;> rfl

theorem Filing.worked {file : FILE} (hs : s.Filing file) (hcalls : s.calls = [])
    (hecho : s.echo = .test) {server : CELLTaskServer LogTask}
    (h : s.server.executed <+: server.executed) (hadded : server.added = s.server.added) :
    Filing { s with
      server, calls := logCalls (server.executed.drop s.server.executed.length) } file := by
  obtain ⟨skipped, kept, blocks, part, hdone, hskipped, hblocks, hwritten, hpart⟩ := hs
  obtain ⟨more, hmore⟩ := h
  refine ⟨skipped, kept, blocks, part, ?_, hadded ▸ hskipped, hblocks, hwritten, ?_⟩
  · rw [hecho, hcalls, unfiled, List.append_nil] at hdone
    rw [hecho, unfiled, ← hmore, List.drop_left, ← hdone]
    exact List.flatMap_append
  · rw [hecho, FiledPart.test] at hpart
    rw [hecho, FiledPart.test]
    exact hpart

/-- A step of `EchoReal` while `file` is `_logFile`. -/
theorem Filing.echoed {file : FILE} (hs : s.Filing file) (hfiles : s.files = [file])
    (hfile : s.logFile = some 0) (hcalls : s.calls = c :: calls) (h : s.Echoed c calls t) :
    ∃ file', t.files = [file'] ∧ (file.isOpen = true → file'.isOpen = true) ∧ t.Filing file' := by
  obtain ⟨skipped, kept, blocks, part, hdone, hskipped, hblocks, hwritten, hpart⟩ := hs
  rw [hcalls] at hdone hpart
  cases h with
  | test hpc =>
    rw [hpc] at hdone hpart
    refine ⟨file, hfiles, id, skipped, kept, blocks, part, ?_, hskipped, hblocks, hwritten, ?_⟩
    · rw [hcalls, hfile]
      exact hdone
    · rw [hcalls, hfile]
      exact hpart
  | @fprintf f file₀ str echo hf hfile₀ hopen hpc =>
    obtain rfl : (0 : ℕ) = f := Option.some.inj (hfile.symm.trans hf)
    rw [hfiles] at hfile₀
    obtain rfl : file = file₀ := Option.some.inj hfile₀
    refine ⟨{ file with written := file.written ++ [str] }, by rw [hfiles]; rfl, id, ?_⟩
    rcases hpc with ⟨hpc, rfl, rfl⟩ | ⟨hpc, ⟨time, rfl⟩, rfl⟩ | ⟨hpc, rfl, rfl⟩ |
      ⟨hpc, ⟨hbr, rfl⟩, rfl⟩ <;> rw [hpc] at hdone hpart
    · obtain rfl : part = [] := hpart
      refine ⟨skipped, kept, blocks, [c.type], by rw [hcalls]; exact hdone, hskipped, hblocks, ?_,
        by rw [hcalls]; rfl⟩
      rw [hwritten, List.append_nil]
    · obtain rfl : part = [c.type] := hpart
      refine ⟨skipped, kept, blocks, [c.type, "[" ++ time ++ "]"], by rw [hcalls]; exact hdone,
        hskipped, hblocks, ?_, by rw [hcalls]; exact ⟨time, rfl⟩⟩
      rw [hwritten, List.append_assoc]
      rfl
    · obtain ⟨time, rfl⟩ := hpart
      refine ⟨skipped, kept, blocks, [c.type, "[" ++ time ++ "]", c.text.format s.logPath],
        by rw [hcalls]; exact hdone, hskipped, hblocks, ?_,
        by rw [hcalls]; exact ⟨time, s.logPath, rfl⟩⟩
      rw [hwritten, List.append_assoc]
      rfl
    · obtain ⟨time, logPath, rfl⟩ := hpart
      refine ⟨skipped, kept ++ [c],
        blocks ++ [c.line ["[" ++ time ++ "]", c.text.format logPath]], [], ?_, hskipped,
        List.rel_append hblocks (.cons ⟨time, logPath, rfl⟩ .nil), ?_, by rw [hcalls]; rfl⟩
      · rw [hcalls, hdone, unfiled, unfiled, List.append_assoc, List.append_assoc,
          List.append_assoc]
        rfl
      · have hline : c.line ["[" ++ time ++ "]", c.text.format logPath] =
            [c.type, "[" ++ time ++ "]", c.text.format logPath] ++ ["\n"] := by
          rw [EchoReal.line, if_pos hbr]
        rw [hwritten, List.flatten_append, List.flatten_singleton, List.append_nil, hline,
          List.append_assoc]
  | skip hpc =>
    rcases hpc with ⟨hpc, hbr, rfl⟩ | ⟨hpc, rfl⟩ <;> rw [hpc] at hdone hpart
    · obtain ⟨time, logPath, rfl⟩ := hpart
      refine ⟨file, hfiles, id, skipped, kept ++ [c],
        blocks ++ [c.line ["[" ++ time ++ "]", c.text.format logPath]], [], ?_, hskipped,
        List.rel_append hblocks (.cons ⟨time, logPath, rfl⟩ .nil), ?_, by rw [hcalls]; rfl⟩
      · rw [hcalls, hdone, unfiled, unfiled, List.append_assoc, List.append_assoc,
          List.append_assoc]
        rfl
      · have hline : c.line ["[" ++ time ++ "]", c.text.format logPath] =
            [c.type, "[" ++ time ++ "]", c.text.format logPath] := by
          rw [EchoReal.line, hbr, if_neg Bool.false_ne_true, List.append_nil]
        rw [hwritten, List.flatten_append, List.flatten_singleton, List.append_nil, hline]
    · refine ⟨file, hfiles, id, skipped, kept, blocks, part, ?_, hskipped, hblocks, hwritten, ?_⟩
      · rw [hcalls]
        exact hdone
      · rw [hcalls]
        exact hpart
  | printf hpc =>
    refine ⟨file, hfiles, id, skipped, kept, blocks, part, ?_, hskipped, hblocks, hwritten, ?_⟩ <;>
      rw [hcalls] <;> rcases hpc with ⟨hpc, -, rfl⟩ | ⟨hpc, -, rfl⟩ <;>
      rw [hpc] at hdone hpart <;> assumption
  | done hpc =>
    rw [hpc] at hdone hpart
    exact ⟨file, hfiles, id, skipped, kept, blocks, part, hdone, hskipped, hblocks, hwritten,
      FiledPart.test.mpr hpart⟩


/-- The line the destructor adds is still to be printed. -/
def Lost (s : CELLLog) : Prop :=
  ∃ task ∈ s.server.added.drop s.server.executed.length,
    task.body = .echo "Info " (.text "CELLLog fclose(_logFile)")

theorem Lost.moved (hs : s.Lost) (h : s.Moved t) : t.Lost := by
  obtain ⟨task, hmem, hbody⟩ := hs
  obtain ⟨more, hmore⟩ := h.added
  refine ⟨task, ?_, hbody⟩
  rw [h.executed, ← hmore, List.drop_append]
  exact List.mem_append_left _ hmem

theorem Lost.log (hs : s.Sound) (caller : LogPC) : Lost { s.info (.text
    "CELLLog fclose(_logFile)") with caller } := by
  refine ⟨⟨s.server.added.length, .echo "Info " (.text "CELLLog fclose(_logFile)")⟩, ?_, rfl⟩
  obtain ⟨hqueued, -⟩ := hs.server
  have hexecuted := hqueued.executed_prefix
  have hle : s.server.executed.length ≤ s.server.added.length := hexecuted.length_le
  simp only [info, CELLLog.log, CELLTaskServer.addTask, List.drop_append_of_le_length hle]
  exact List.mem_append_right _ (List.mem_singleton_self _)

/-- Where the caller is while there was no file. -/
def WithoutFile : LogPC → Prop
  | .pathInfo _ | .pathClose _ | .pathNull _ | .endInfo | .endClose | .endNull => False
  | .construct | .starting | .idle | .pathTest _ | .pathPrint _ | .pathOpen _ | .pathReport _
  | .closing | .endTest | .destroyed => True

/-- Where the caller is while the only file is open. -/
def WithFile : LogPC → Prop
  | .idle | .pathReport _ | .closing | .endTest | .endInfo | .endClose => True
  | .construct | .starting | .pathTest _ | .pathInfo _ | .pathClose _ | .pathNull _ | .pathPrint _
  | .pathOpen _ | .endNull | .destroyed => False

/-- The log has had one file at most, which is `_logFile` until the destructor closes it. -/
inductive Once (s : CELLLog) : Prop
  | missing (hfiles : s.files = []) (hfile : s.logFile = none) (hecho : ¬InFile s.echo)
    (hpc : WithoutFile s.caller)
  | opened {file : FILE} (hfiles : s.files = [file]) (hfile : s.logFile = some 0)
    (hopen : file.isOpen = true) (hfiling : s.Filing file) (hpc : WithFile s.caller)
    (hlost : s.caller = .endClose → s.Lost)
  | closed {file : FILE} (hfiles : s.files = [file]) (hopen : file.isOpen = false)
    (hfiling : s.Filing file) (hlost : s.Lost)
    (hpc : (s.caller = .endNull ∧ s.logFile = some 0) ∨
      (s.caller = .destroyed ∧ s.logFile = none))

theorem Once.new : Once .new :=
  .missing rfl rfl not_false trivial

/-- The file of a log that has had one file at most. -/
theorem Once.filing (hs : s.Once) {file : FILE} (hmem : file ∈ s.files) : s.Filing file := by
  cases hs with
  | missing hfiles =>
    rw [hfiles] at hmem
    cases hmem
  | opened hfiles _ _ hfiling =>
    rw [hfiles, List.mem_singleton] at hmem
    exact hmem ▸ hfiling
  | closed hfiles _ hfiling =>
    rw [hfiles, List.mem_singleton] at hmem
    exact hmem ▸ hfiling

/-- A step of the caller before there is a file. -/
theorem Once.called_missing (hfiles : s.files = []) (hfile : s.logFile = none)
    (hecho : ¬InFile s.echo) (hpc : WithoutFile s.caller) (hsound : s.Sound)
    (hprint : s.Printing) (h : s.Called a t) : t.Once := by
  cases h with
  | server hact hcaller =>
    refine .missing hfiles hfile hecho ?_
    rcases hcaller with ⟨-, -, rfl⟩ | ⟨-, -, rfl⟩ | ⟨-, -, rfl⟩ | ⟨-, -, rfl⟩ <;> trivial
  | returned hidle hcaller =>
    refine .missing hfiles hfile hecho ?_
    rcases hcaller with ⟨-, rfl⟩ | ⟨-, rfl⟩ <;> trivial
  | setLogPath ha hcaller => exact .missing hfiles hfile hecho trivial
  | found hf hcaller =>
    rw [hfile] at hf
    cases hf
  | missing hf hcaller =>
    refine .missing hfiles hfile hecho ?_
    rcases hcaller with ⟨args, -, rfl⟩ | ⟨-, rfl⟩ <;> trivial
  | info hcaller =>
    rcases hcaller with ⟨args, hcaller, -⟩ | ⟨args, hcaller, rfl⟩ | ⟨hcaller, -, -⟩
    · rw [hcaller] at hpc
      exact hpc.elim
    · exact .missing hfiles hfile hecho trivial
    · rw [hcaller] at hpc
      exact hpc.elim
  | fclose hf =>
    rw [hfile] at hf
    cases hf
  | null hcaller =>
    rcases hcaller with ⟨args, hcaller, -⟩ | ⟨hcaller, -⟩ <;> rw [hcaller] at hpc <;>
      exact hpc.elim
  | print hcaller => exact .missing hfiles hfile hecho trivial
  | @fopen args opens hcaller =>
    cases opens with
    | false => exact .missing hfiles rfl hecho trivial
    | true =>
      have hfiling := Filing.opened hsound hprint hecho s.logPath args.mode
      refine .opened ?_ ?_ rfl (hfiling.moved (.of_eq rfl rfl rfl rfl)) trivial fun hend => ?_
      · rw [CELLLog.fopen, if_pos rfl, hfiles]
        rfl
      · rw [CELLLog.fopen, if_pos rfl, hfiles]
        rfl
      · cases hend

/-- A step of the caller while the file is open, other than `setLogPath`. -/
theorem Once.called_opened {file : FILE} (hfiles : s.files = [file]) (hfile : s.logFile = some 0)
    (hopen : file.isOpen = true) (hfiling : s.Filing file) (hpc : WithFile s.caller)
    (hlost : s.caller = .endClose → s.Lost) (hsound : s.Sound)
    (hset : s.SetOnce a) (h : s.Called a t) : t.Once := by
  have hm := h.moved
  cases h with
  | server hact hcaller =>
    refine .opened hfiles hfile hopen (hfiling.moved hm) ?_ fun hend => ?_
    · rcases hcaller with ⟨-, hcaller, -⟩ | ⟨-, hcaller, -⟩ | ⟨-, -, rfl⟩ | ⟨-, -, rfl⟩
      · rw [hcaller] at hpc
        exact hpc.elim
      · rw [hcaller] at hpc
        exact hpc.elim
      · trivial
      · trivial
    · obtain rfl := hend
      simp at hcaller
  | returned hidle hcaller =>
    refine .opened hfiles hfile hopen (hfiling.moved hm) ?_ fun hend => ?_
    · rcases hcaller with ⟨-, rfl⟩ | ⟨-, rfl⟩ <;> trivial
    · obtain rfl := hend
      simp at hcaller
  | setLogPath ha hcaller =>
    have hnone : s.logFile = none := by
      rw [ha] at hset
      exact hset
    rw [hfile] at hnone
    cases hnone
  | found hf hcaller =>
    rcases hcaller with ⟨args, hcaller, -⟩ | ⟨-, rfl⟩
    · rw [hcaller] at hpc
      exact hpc.elim
    · exact .opened hfiles hfile hopen (hfiling.moved hm) trivial fun hend => by cases hend
  | missing hf hcaller =>
    rw [hfile] at hf
    cases hf
  | info hcaller =>
    rcases hcaller with ⟨args, hcaller, -⟩ | ⟨args, hcaller, rfl⟩ | ⟨hcaller, rfl, rfl⟩
    · rw [hcaller] at hpc
      exact hpc.elim
    · exact .opened hfiles hfile hopen (hfiling.moved hm) trivial fun hend => by cases hend
    · exact .opened hfiles hfile hopen (hfiling.moved hm) trivial fun _ => .log hsound _
  | @fclose f file' caller hf hfile' hopen' hcaller =>
    obtain rfl : (0 : ℕ) = f := Option.some.inj (hfile.symm.trans hf)
    rw [hfiles] at hfile'
    obtain rfl : file = file' := Option.some.inj hfile'
    rcases hcaller with ⟨args, hcaller, -⟩ | ⟨hcaller, rfl⟩
    · rw [hcaller] at hpc
      exact hpc.elim
    · have hfiling' : s.Filing { file with isOpen := false } := hfiling
      refine @Once.closed _ { file with isOpen := false } ?_ rfl (hfiling'.moved hm)
        ((hlost hcaller).moved hm) (Or.inl ⟨rfl, hfile⟩)
      rw [hfiles]
      rfl
  | null hcaller =>
    rcases hcaller with ⟨args, hcaller, -⟩ | ⟨hcaller, -⟩ <;> rw [hcaller] at hpc <;>
      exact hpc.elim
  | print hcaller =>
    rw [hcaller] at hpc
    exact hpc.elim
  | fopen hcaller =>
    rw [hcaller] at hpc
    exact hpc.elim

/-- A step of the caller behind the closing of the file. -/
theorem Once.called_closed {file : FILE} (hfiles : s.files = [file])
    (hopen : file.isOpen = false) (hfiling : s.Filing file) (hlost : s.Lost)
    (hpc : (s.caller = .endNull ∧ s.logFile = some 0) ∨
      (s.caller = .destroyed ∧ s.logFile = none)) (h : s.Called a t) : t.Once := by
  have hm := h.moved
  cases h with
  | null hcaller =>
    rcases hcaller with ⟨args, hcaller, -⟩ | ⟨hcaller, rfl⟩
    · simp [hcaller] at hpc
    · exact .closed hfiles hopen (hfiling.moved hm) (hlost.moved hm) (Or.inr ⟨rfl, rfl⟩)
  | server hact hcaller => grind
  | returned hidle hcaller => grind
  | setLogPath ha hcaller => simp [hcaller] at hpc
  | found hf hcaller => grind
  | missing hf hcaller => grind
  | info hcaller => grind
  | fclose hf hfile' hopen' hcaller => grind
  | print hcaller => simp [hcaller] at hpc
  | fopen hcaller => simp [hcaller] at hpc

/-- A line is added. -/
theorem Once.log (hs : s.Once) (task : LogTask) : (s.log task).Once := by
  have hm := Moved.log s task s.caller
  cases hs with
  | missing hfiles hfile hecho hpc => exact .missing hfiles hfile hecho hpc
  | opened hfiles hfile hopen hfiling hpc hlost =>
    exact .opened hfiles hfile hopen (hfiling.moved hm) hpc fun hend => (hlost hend).moved hm
  | closed hfiles hopen hfiling hlost hpc =>
    exact .closed hfiles hopen (hfiling.moved hm) (hlost.moved hm) hpc

/-- Where the caller is past the end of the task server, the worker is in no task. -/
theorem Sound.ended (hs : s.Sound) (hpc : s.server.Returns) :
    s.server.run.Past ∧ s.calls = [] := by
  have hended := hs.server.2.ended_of_returns hpc
  have hpast : s.server.run.Past := by
    rw [hended]
    trivial
  exact ⟨hpast, by_contra fun hne => hs.calls hne hpast⟩

/-- The worker has no calls left once the file of the log is closed. -/
theorem Sound.calls_eq_nil_of_closed (hs : s.Sound)
    (hpc : (s.caller = .endNull ∧ s.logFile = some 0) ∨
      (s.caller = .destroyed ∧ s.logFile = none)) : s.calls = [] := by
  have hcaller := hs.caller
  have hret : s.server.Returns := by
    rcases hpc with ⟨hpc, -⟩ | ⟨hpc, -⟩ <;> rw [hpc] at hcaller <;> exact hcaller
  exact (hs.ended hret).2

/-- A step of the worker between two tasks. -/
theorem Once.worked (hs : s.Once) (hsound : s.Sound) (hcalls : s.calls = [])
    {server : CELLTaskServer LogTask} (h : s.server.workerStep [] = some server) :
    Once { s with
      server, calls := logCalls (server.executed.drop s.server.executed.length) } := by
  have hecho := hsound.echo hcalls
  have hframe : server.added = s.server.added ∧ s.server.executed <+: server.executed := by
    rcases CELLTaskServer.workerStep_executes h with ⟨hexecuted, hadded, -⟩ | ⟨task, r, -, -, rfl⟩
    · exact ⟨hadded, hexecuted ▸ List.prefix_refl _⟩
    · exact ⟨rfl, List.prefix_append _ _⟩
  have hkeep : s.server.Returns → s.Lost → Lost { s with
      server, calls := logCalls (server.executed.drop s.server.executed.length) } := by
    rintro hret ⟨task, hmem, hbody⟩
    refine ⟨task, ?_, hbody⟩
    rcases CELLTaskServer.workerStep_executes h with ⟨hexecuted, hadded, -⟩ | ⟨-, -, hrun, -⟩
    · dsimp only
      rw [hexecuted, hadded]
      exact hmem
    · exact absurd (hsound.ended hret).1 hrun
  have hcaller := hsound.caller
  cases hs with
  | missing hfiles hfile _ hpc => exact .missing hfiles hfile (by rw [hecho]; exact id) hpc
  | opened hfiles hfile hopen hfiling hpc hlost =>
    refine .opened hfiles hfile hopen (hfiling.worked hcalls hecho hframe.2 hframe.1) hpc
      fun hend => ?_
    have hend' : s.caller = .endClose := hend
    rw [hend'] at hcaller
    exact hkeep hcaller (hlost hend)
  | closed hfiles hopen hfiling hlost hpc =>
    refine .closed hfiles hopen (hfiling.worked hcalls hecho hframe.2 hframe.1)
      (hkeep ?_ hlost) hpc
    rcases hpc with ⟨hpc, -⟩ | ⟨hpc, -⟩ <;> rw [hpc] at hcaller <;> exact hcaller

theorem Echoed.frame (h : s.Echoed c calls t) :
    t.server = s.server ∧ t.caller = s.caller ∧ t.logFile = s.logFile := by
  cases h <;> exact ⟨rfl, rfl, rfl⟩

/-- Without a file, the worker does not come into the block that writes to it. -/
theorem Echoed.not_inFile (h : s.Echoed c calls t) (hfile : s.logFile = none)
    (hecho : ¬InFile s.echo) : t.files = s.files ∧ ¬InFile t.echo := by
  cases h with
  | test hpc =>
    rw [hfile]
    exact ⟨rfl, not_false⟩
  | fprintf hf =>
    rw [hfile] at hf
    cases hf
  | skip hpc =>
    rcases hpc with ⟨hpc, -⟩ | ⟨hpc, -⟩ <;> rw [hpc] at hecho <;> exact absurd trivial hecho
  | printf hpc => rcases hpc with ⟨-, -, rfl⟩ | ⟨-, -, rfl⟩ <;> exact ⟨rfl, not_false⟩
  | done => exact ⟨rfl, not_false⟩

/-- A step of `EchoReal`. -/
theorem Once.echoed (hs : s.Once) (hsound : s.Sound) (hcalls : s.calls = c :: calls)
    (h : s.Echoed c calls t) : t.Once := by
  obtain ⟨hserver, hpc', hfile'⟩ := h.frame
  cases hs with
  | missing hfiles hfile hecho hpc =>
    obtain ⟨hsame, hnot⟩ := h.not_inFile hfile hecho
    exact .missing (hsame.trans hfiles) (hfile'.trans hfile) hnot (hpc' ▸ hpc)
  | opened hfiles hfile hopen hfiling hpc hlost =>
    obtain ⟨file', hfiles', hopen', hfiling'⟩ := hfiling.echoed hfiles hfile hcalls h
    refine .opened hfiles' (hfile'.trans hfile) (hopen' hopen) hfiling' (hpc' ▸ hpc)
      fun hend => ?_
    rw [Lost, hserver]
    exact hlost (hpc' ▸ hend)
  | closed _ _ _ _ hpc =>
    rw [hsound.calls_eq_nil_of_closed hpc] at hcalls
    cases hcalls

/-! ## Runs -/

/-- What a run keeps. -/
structure Lined (s : CELLLog) : Prop where
  sound : s.Sound
  printing : s.Printing

theorem Lined.new : Lined .new :=
  ⟨.new, .new⟩

theorem Lined.step (hs : s.Lined) (h : s.act a = some (.ok t)) : t.Lined := by
  refine ⟨hs.sound.step h, ?_⟩
  cases stepped h with
  | log task => exact hs.printing.moved (.log s task s.caller)
  | called h => exact hs.printing.moved h.moved
  | worked hcalls hwork =>
    refine hs.printing.worked hcalls (hs.sound.echo hcalls) ?_
    rcases CELLTaskServer.workerStep_executes hwork with ⟨hexecuted, -⟩ | ⟨task, r, -, -, rfl⟩
    · exact ⟨[], (List.append_nil _).trans hexecuted.symm⟩
    · exact List.prefix_append _ _
  | echoed hcalls hecho => exact hs.printing.echoed hcalls hecho

theorem Once.step (hs : s.Once) (hlined : s.Lined)
    (hset : s.SetOnce a) (h : s.act a = some (.ok t)) : t.Once := by
  cases stepped h with
  | log task => exact hs.log task
  | called h =>
    cases hs with
    | missing hfiles hfile hecho hpc =>
      exact .called_missing hfiles hfile hecho hpc hlined.sound hlined.printing h
    | opened hfiles hfile hopen hfiling hpc hlost =>
      exact .called_opened hfiles hfile hopen hfiling hpc hlost hlined.sound hset h
    | closed hfiles hopen hfiling hlost hpc =>
      exact .called_closed hfiles hopen hfiling hlost hpc h
  | worked hcalls hwork => exact hs.worked hlined.sound hcalls hwork
  | echoed hcalls hecho => exact hs.echoed hlined.sound hcalls hecho

/-! ## Faults -/

section Faults

variable {file : FILE} (hfiles : s.files = [file]) (hfile : s.logFile = some 0)
  (hopen : file.isOpen = true)

include hfiles hfile hopen

theorem fprintf_ok (str : String) : ∃ t, s.fprintf str = .ok t := by
  rw [fprintf, hfile, hfiles]
  dsimp only
  rw [List.getElem?_cons_zero]
  dsimp only
  rw [if_pos hopen]
  exact ⟨_, rfl⟩

theorem fflush_ok : ∃ t, s.fflush = .ok t := by
  rw [fflush, hfile, hfiles]
  dsimp only
  rw [List.getElem?_cons_zero]
  dsimp only
  rw [if_pos hopen]
  exact ⟨_, rfl⟩

theorem fclose_ok : ∃ t, s.fclose = .ok t := by
  rw [fclose, hfile, hfiles]
  dsimp only
  rw [List.getElem?_cons_zero]
  dsimp only
  rw [if_pos hopen]
  exact ⟨_, rfl⟩

/-- With an open file, `EchoReal` goes on. -/
theorem echoReal_ok (c : EchoReal) (calls : List EchoReal) (time : String) :
    ∃ t, s.echoReal c calls time = .ok t := by
  have hprint := fprintf_ok hfiles hfile hopen
  rw [echoReal]
  cases s.echo with
  | fileType =>
    obtain ⟨t, ht⟩ := hprint c.type
    exact ⟨_, Fallible.bind_eq_ok.mpr ⟨t, ht, rfl⟩⟩
  | fileTime =>
    obtain ⟨t, ht⟩ := hprint ("[" ++ time ++ "]")
    exact ⟨_, Fallible.bind_eq_ok.mpr ⟨t, ht, rfl⟩⟩
  | fileText =>
    obtain ⟨t, ht⟩ := hprint (c.text.format s.logPath)
    exact ⟨_, Fallible.bind_eq_ok.mpr ⟨t, ht, rfl⟩⟩
  | fileBr =>
    dsimp only
    split
    · obtain ⟨t, ht⟩ := hprint "\n"
      exact ⟨_, Fallible.bind_eq_ok.mpr ⟨t, ht, rfl⟩⟩
    · exact ⟨_, rfl⟩
  | flush =>
    obtain ⟨t, ht⟩ := fflush_ok hfiles hfile hopen
    exact ⟨_, Fallible.bind_eq_ok.mpr ⟨t, ht, rfl⟩⟩
  | _ => exact ⟨_, rfl⟩

end Faults

/-- Outside the block that writes to the file, `EchoReal` goes on. -/
theorem echoReal_ok_of_not_inFile (hecho : ¬InFile s.echo) (c : EchoReal)
    (calls : List EchoReal) (time : String) : ∃ t, s.echoReal c calls time = .ok t := by
  rw [echoReal]
  cases hpc : s.echo with
  | test | type | text | br => exact ⟨_, rfl⟩
  | _ =>
    rw [hpc] at hecho
    exact absurd trivial hecho

/-- With at most one file, the worker does nothing undefined. -/
theorem Once.workerStep_ok (hs : s.Once) (hsound : s.Sound) {time : String} {r : Exec CELLLog}
    (h : s.workerStep time = some r) : ∃ t, r = .ok t := by
  unfold workerStep at h
  split at h
  · rename_i c calls hcalls
    obtain rfl := Option.some.inj h
    cases hs with
    | missing _ _ hecho _ => exact echoReal_ok_of_not_inFile hecho c calls time
    | opened hfiles hfile hopen => exact echoReal_ok hfiles hfile hopen c calls time
    | closed _ _ _ _ hpc =>
      rw [hsound.calls_eq_nil_of_closed hpc] at hcalls
      cases hcalls
  · obtain ⟨server, -, rfl⟩ := Option.map_eq_some_iff.mp h
    exact ⟨_, rfl⟩

/-- With at most one file, closing it is not undefined. -/
theorem Once.fclose_ok (hs : s.Once)
    (hpc : (∃ args, s.caller = .pathClose args) ∨ s.caller = .endClose) :
    ∃ t, s.fclose = .ok t := by
  cases hs with
  | missing _ _ _ hcaller =>
    rcases hpc with ⟨args, hpc⟩ | hpc <;> rw [hpc] at hcaller <;> exact hcaller.elim
  | opened hfiles hfile hopen => exact CELLLog.fclose_ok hfiles hfile hopen
  | closed _ _ _ _ hcaller =>
    rcases hpc with ⟨args, hpc⟩ | hpc <;> simp [hpc] at hcaller

/-- With at most one file, only the printing of the path can be undefined. -/
theorem Once.fault (hs : s.Once) (hsound : s.Sound) {e : UB} (h : s.act a = some (.error e)) :
    e = .outOfBounds ∧ ∃ args date opens, a = .caller date opens ∧
      s.caller = .pathPrint args ∧ 256 ≤ (args.path date).utf8ByteSize := by
  have hserver : ∀ {x : TaskAct LogTask} {caller : LogPC},
      s.onServer x caller ≠ some (.error e) := by
    intro x caller h
    obtain ⟨server, -, hok⟩ := Option.map_eq_some_iff.mp h
    cases hok
  cases a with
  | echo type text =>
    rw [act] at h
    split at h <;> cases h
  | pError text errCode errMsg =>
    rw [act] at h
    split at h <;> cases h
  | setLogPath args =>
    rw [act] at h
    split at h <;> cases h
  | destroy =>
    rw [act] at h
    split at h
    · exact absurd h hserver
    · cases h
  | worker time =>
    obtain ⟨t, ht⟩ := hs.workerStep_ok hsound h
    cases ht
  | caller date opens =>
    rw [act, callerStep] at h
    cases hpc : s.caller with simp only [hpc] at h
    | construct => exact absurd h hserver
    | starting =>
      split at h
      · cases h
      · exact absurd h hserver
    | closing =>
      split at h
      · cases h
      · exact absurd h hserver
    | pathClose args =>
      obtain ⟨t, ht⟩ := hs.fclose_ok (Or.inl ⟨args, hpc⟩)
      rw [ht] at h
      cases h
    | endClose =>
      obtain ⟨t, ht⟩ := hs.fclose_ok (Or.inr hpc)
      rw [ht] at h
      cases h
    | pathPrint args =>
      split at h
      · cases h
      · obtain rfl := Except.error.inj (Option.some.inj h)
        exact ⟨rfl, args, date, opens, rfl, rfl, Nat.le_of_not_lt ‹_›⟩
    | _ => cases h

end CELLLog

/-- No line is lost. In every run the terminal has all the lines of the tasks the worker
has executed, which are the first ones that were added, in their order. If `setLogPath` is
only called while there is no file, then nothing but a path of 256 characters is undefined,
the file has the same lines from some line on that was added before it was opened, and when
the log is destroyed it is closed with every line in it that had been added before, but not
the one the destructor adds. -/
theorem log_lines_kept {s₀ s : CELLLog} {tr : List (CELLLog × LogAct)} (hinit : cellLog.init s₀)
    (hrun : cellLog.Run s₀ tr s) :
    (s.server.executed <+: s.server.added ∧ (s.calls = [] → ∃ blocks,
      List.Forall₂ EchoReal.Prints (logCalls s.server.executed) blocks ∧
        s.stdout = blocks.flatten)) ∧
    ((∀ x ∈ tr, x.1.SetOnce x.2) →
      (∀ a e, cellLog.step s a (.error e) → ∃ args date opens, a = .caller date opens ∧
        s.caller = .pathPrint args ∧ 256 ≤ (args.path date).utf8ByteSize) ∧
      (s.calls = [] → ∀ file ∈ s.files, ∃ skipped kept blocks,
        logCalls s.server.executed = skipped ++ kept ∧
        skipped <+: logCalls (s.server.added.take file.since) ∧
        List.Forall₂ EchoReal.Files kept blocks ∧ file.written = blocks.flatten) ∧
      (s.caller = .destroyed → s.calls = [] ∧
        (∃ before, s.server.atClose = some before ∧ before <+: s.server.executed) ∧
        ∀ file ∈ s.files, file.isOpen = false ∧ s.Lost)) := by
  obtain rfl : s₀ = .new := hinit
  have hlined : s.Lined := hrun.invariant (fun _ _ _ hs hst => hs.step hst) .new
  have hecho : s.calls = [] → s.echo = .test := hlined.sound.echo
  obtain ⟨hqueued, -⟩ := hlined.sound.server
  have hexecuted := hqueued.executed_prefix
  refine ⟨⟨hexecuted, fun hcalls => ?_⟩, fun hset => ?_⟩
  · obtain ⟨done, blocks, part, hdone, hblocks, hstdout, hpart⟩ := hlined.printing
    rw [hecho hcalls, CELLLog.PrintedPart.test] at hpart
    rw [hcalls, List.append_nil] at hdone
    rw [hpart, List.append_nil] at hstdout
    exact ⟨blocks, hdone ▸ hblocks, hstdout⟩
  · obtain ⟨-, honce⟩ : s.Lined ∧ s.Once :=
      hrun.invariant_of_steps (I := fun s => s.Lined ∧ s.Once)
        (fun _ _ _ hs hset hst => ⟨hs.1.step hst, hs.2.step hs.1 hset hst⟩) hset ⟨.new, .new⟩
    refine ⟨fun a e h => (honce.fault hlined.sound h).2, fun hcalls file hmem => ?_,
      fun hend => ?_⟩
    · obtain ⟨skipped, kept, blocks, part, hdone, hskipped, hblocks, hwritten, hpart⟩ :=
        honce.filing hmem
      rw [hecho hcalls, CELLLog.FiledPart.test] at hpart
      rw [hecho hcalls, hcalls, CELLLog.unfiled, List.append_nil] at hdone
      rw [hpart, List.append_nil] at hwritten
      exact ⟨skipped, kept, blocks, hdone, hskipped, hblocks, hwritten⟩
    · have hret : s.server.Returns := by
        have hcaller := hlined.sound.caller
        rw [hend] at hcaller
        exact hcaller
      obtain ⟨before, hbefore⟩ := Option.ne_none_iff_exists'.mp hret.1
      refine ⟨(hlined.sound.ended hret).2, ⟨before, hbefore, ?_⟩, fun file hmem => ?_⟩
      · exact hlined.sound.server.1.drained
          (Or.inr (hlined.sound.server.2.ended_of_returns hret)) before hbefore
      · cases honce with
        | missing hfiles =>
          rw [hfiles] at hmem
          cases hmem
        | opened _ _ _ _ hpc =>
          rw [hend] at hpc
          exact hpc.elim
        | closed hfiles hopen _ hlost =>
          rw [hfiles, List.mem_singleton] at hmem
          exact ⟨hmem ▸ hopen, hlost⟩

/-- Two lines are in the file when the log is destroyed, and its own is not. -/
theorem log_lines_kept_one : ∃ tr s, cellLog.Run .new tr s ∧ s.files ≠ [] ∧
    s.server.executed.length = 2 ∧ ∀ file ∈ s.files, file.isOpen = false ∧ s.Lost := by
  let acts : List LogAct := List.replicate 7 (.caller "" false) ++
    [.setLogPath ⟨"serverLog", "w", false⟩, .caller "" false, .caller "" false, .caller "" true,
      .caller "" false, .echo "Info " "exit.", .destroy] ++
    List.replicate 4 (.caller "" false) ++ List.replicate 29 (.worker "") ++
    List.replicate 7 (.caller "" false)
  let f : CELLLog → LogAct → Option CELLLog := fun s a =>
    if s.SetOnce a then (s.act a).bind Except.toOption else none
  have hf : ∀ s a t, f s a = some t → cellLog.step s a (.ok t) ∧ s.SetOnce a := by
    intro s a t h
    dsimp only [f] at h
    split at h
    · obtain ⟨r, hact, hr⟩ := Option.bind_eq_some_iff.mp h
      exact ⟨hact.trans (congrArg some (Exec.toOption_eq_some.mp hr)), ‹_›⟩
    · cases h
  have heval : (acts.foldlM f .new).map (fun s =>
      (s.caller, s.files.length, s.server.executed.length)) = some (.destroyed, 1, 2) := by
    decide +kernel
  obtain ⟨tr, s, hrun, -, hset, hstate⟩ := Machine.Run.of_foldlM_steps hf heval
  simp only [Prod.mk.injEq] at hstate
  obtain ⟨hcaller, hfiles, hexecuted⟩ := hstate
  have hend := ((log_lines_kept rfl hrun).2 hset).2.2 hcaller
  refine ⟨tr, s, hrun, fun hnil => ?_, hexecuted, hend.2.2⟩
  rw [hnil] at hfiles
  cases hfiles

end CellNet
