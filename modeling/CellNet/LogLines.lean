import CellNet.Cxx
import CellNet.Fallible
import CellNet.TaskServer
import Mathlib.Data.List.Flatten
import Mathlib.Data.List.Forall2

/-!
# The log

`CELLLog` : any thread logs a line by an `addTask`, and the worker of the task server
writes it, to `_logFile` if there is one and then to the terminal. Only the thread that
made the log opens a file for it and destroys it, while the worker reads `_logFile` again
in every `fprintf`, so each access to it is a step of its own.

The task server is that of `TaskServer`, whose worker does a task in many steps here : it
takes no step of its own while there are calls of `EchoReal` left. `Called` and `Echoed`
say what a step of the caller and a step of the worker can do, and `Sound` is what holds
in every run.
-/

namespace CellNet

/-! ## The class -/

/-- A text with its arguments. The lines of `setLogPath` print the static `logPath`, which
is read when they are written. -/
inductive LogText
  /-- A text without `logPath`. -/
  | text (str : String)
  /-- `CELLLog::setLogPath success,<%s,%s>`. -/
  | success (mode : String)
  /-- `CELLLog::setLogPath failed,<%s,%s>`. -/
  | failed (mode : String)
  deriving DecidableEq, Repr

/-- What is printed while `logPath` is in the static buffer. -/
def LogText.format (logPath : String) : LogText → String
  | text str => str
  | success mode => "CELLLog::setLogPath success,<" ++ logPath ++ "," ++ mode ++ ">"
  | failed mode => "CELLLog::setLogPath failed,<" ++ logPath ++ "," ++ mode ++ ">"

/-- A call of `EchoReal`. -/
structure EchoReal where
  br : Bool
  type : String
  text : LogText
  deriving DecidableEq, Repr

/-- What is added to the task server. -/
inductive LogTask
  /-- The task of `Echo`. -/
  | echo (type : String) (text : LogText)
  /-- The task of `PError`, where `errMsg` is `strerror(errCode)`. -/
  | pError (text : String) (errCode : ℤ) (errMsg : String)
  deriving DecidableEq, Repr

/-- The calls in a task. -/
def LogTask.calls : LogTask → List EchoReal
  | echo type text => [⟨true, type, text⟩]
  | pError text errCode errMsg =>
    [⟨true, "PError ", .text text⟩,
      ⟨true, "PError ", .text ("errno<" ++ toString errCode ++ ">,errmsg<" ++ errMsg ++ ">")⟩]

/-- The calls in tasks. -/
def logCalls (tasks : List (CELLTask LogTask)) : List EchoReal :=
  tasks.flatMap fun task => task.body.calls

/-- Where the worker is in `EchoReal`. -/
inductive EchoPC
  /-- `if (pLog->_logFile)`. -/
  | test
  /-- The type, to the file. -/
  | fileType
  /-- The time, to the file. -/
  | fileTime
  /-- The text, to the file. -/
  | fileText
  /-- The end of the line, to the file. -/
  | fileBr
  /-- `fflush`. -/
  | flush
  /-- The type, to the terminal. -/
  | type
  /-- The text, to the terminal. -/
  | text
  /-- The end of the line, to the terminal. -/
  | br
  deriving DecidableEq, Repr

/-- A `FILE` that `fopen` returned. -/
structure FILE where
  path : String
  mode : String
  /-- What the calls of `fprintf` were given, in their order. -/
  written : List String
  /-- Not yet closed. -/
  isOpen : Bool
  /-- How many tasks had been added when it was opened. -/
  since : ℕ
  deriving DecidableEq, Repr

/-- The arguments of `setLogPath`. -/
structure SetLogPath where
  logName : String
  mode : String
  hasDate : Bool
  deriving DecidableEq, Repr

/-- What is printed into `logPath`, where `date` is the current time. -/
def SetLogPath.path (args : SetLogPath) (date : String) : String :=
  if args.hasDate then args.logName ++ "[" ++ date ++ "].txt" else args.logName ++ ".txt"

/-- Where the thread is that made the log. -/
inductive LogPC
  /-- The constructor. -/
  | construct
  /-- In `_taskServer.Start()`. -/
  | starting
  /-- In no call. -/
  | idle
  /-- `setLogPath` : `if (_logFile)`. -/
  | pathTest (args : SetLogPath)
  /-- `setLogPath` : the line in front of `fclose`. -/
  | pathInfo (args : SetLogPath)
  /-- `setLogPath` : `fclose`. -/
  | pathClose (args : SetLogPath)
  /-- `setLogPath` : `_logFile = nullptr`. -/
  | pathNull (args : SetLogPath)
  /-- `setLogPath` : `sprintf`. -/
  | pathPrint (args : SetLogPath)
  /-- `setLogPath` : `fopen`. -/
  | pathOpen (args : SetLogPath)
  /-- `setLogPath` : the last line. -/
  | pathReport (args : SetLogPath)
  /-- In `_taskServer.Close()`, called by the destructor. -/
  | closing
  /-- The destructor : `if (_logFile)`. -/
  | endTest
  /-- The destructor : the line in front of `fclose`. -/
  | endInfo
  /-- The destructor : `fclose`. -/
  | endClose
  /-- The destructor : `_logFile = nullptr`. -/
  | endNull
  | destroyed
  deriving DecidableEq, Repr

/-- The `CELLLog`, its files and the terminal. -/
structure CELLLog where
  /-- `_taskServer`. -/
  server : CELLTaskServer LogTask
  /-- `_logFile`. -/
  logFile : Option ℕ
  /-- The files that were opened. -/
  files : List FILE
  /-- `logPath`. -/
  logPath : String
  /-- What the calls of `printf` were given, in their order. -/
  stdout : List String
  /-- The calls of `EchoReal` the worker has still to do in its task. -/
  calls : List EchoReal
  /-- Where it is in the first one. -/
  echo : EchoPC
  caller : LogPC

namespace CELLLog

/-- The log in front of its constructor. -/
def new : CELLLog :=
  ⟨.new, none, [], "", [], [], .test, .construct⟩

/-- The line is added to the task server. -/
def log (s : CELLLog) (task : LogTask) : CELLLog :=
  { s with server := s.server.addTask task }

/-- `Info`. -/
def info (s : CELLLog) (text : LogText) : CELLLog :=
  s.log (.echo "Info " text)

/-- `fprintf(_logFile, …)`. -/
def fprintf (s : CELLLog) (str : String) : Exec CELLLog :=
  match s.logFile with
  | none => .error .nullDeref
  | some f =>
    match s.files[f]? with
    | none => .error .outOfBounds
    | some file =>
      if file.isOpen then
        .ok { s with files := s.files.set f { file with written := file.written ++ [str] } }
      else .error .useAfterFree

/-- `fflush(_logFile)`, which takes a null pointer too. -/
def fflush (s : CELLLog) : Exec CELLLog :=
  match s.logFile with
  | none => .ok s
  | some f =>
    match s.files[f]? with
    | none => .error .outOfBounds
    | some file => if file.isOpen then .ok s else .error .useAfterFree

/-- `fclose(_logFile)`. -/
def fclose (s : CELLLog) : Exec CELLLog :=
  match s.logFile with
  | none => .error .nullDeref
  | some f =>
    match s.files[f]? with
    | none => .error .outOfBounds
    | some file =>
      if file.isOpen then .ok { s with files := s.files.set f { file with isOpen := false } }
      else .error .doubleFree

/-- `_logFile = fopen(logPath, mode)`, which may fail. -/
def fopen (s : CELLLog) (mode : String) (opens : Bool) : CELLLog :=
  if opens then
    { s with
      logFile := some s.files.length
      files := s.files ++ [⟨s.logPath, mode, [], true, s.server.added.length⟩] }
  else { s with logFile := none }

/-- `printf`. -/
def printf (s : CELLLog) (str : String) : CELLLog :=
  { s with stdout := s.stdout ++ [str] }

/-- The next step of `EchoReal` for `c`, with `calls` behind it, where `time` is the current
time. -/
def echoReal (s : CELLLog) (c : EchoReal) (calls : List EchoReal) (time : String) :
    Exec CELLLog :=
  match s.echo with
  | .test => .ok { s with echo := if s.logFile.isSome then .fileType else .type }
  | .fileType => do return { ← s.fprintf c.type with echo := .fileTime }
  | .fileTime => do return { ← s.fprintf ("[" ++ time ++ "]") with echo := .fileText }
  | .fileText => do return { ← s.fprintf (c.text.format s.logPath) with echo := .fileBr }
  | .fileBr => do return { ← if c.br then s.fprintf "\n" else .ok s with echo := .flush }
  | .flush => do return { ← s.fflush with echo := .type }
  | .type => .ok { s.printf c.type with echo := .text }
  | .text => .ok { s.printf (c.text.format s.logPath) with echo := .br }
  | .br => .ok { if c.br then s.printf "\n" else s with echo := .test, calls }

/-- The next step of the worker. -/
def workerStep (s : CELLLog) (time : String) : Option (Exec CELLLog) :=
  match s.calls with
  | c :: calls => some (s.echoReal c calls time)
  | [] => (s.server.workerStep []).map fun server =>
      .ok { s with server, calls := logCalls (server.executed.drop s.server.executed.length) }

/-- The task server takes a step. -/
def onServer (s : CELLLog) (a : TaskAct LogTask) (caller : LogPC) : Option (Exec CELLLog) :=
  (s.server.act a).map fun server => .ok { s with server, caller }

/-- The caller's next step, where `date` is the current time and `opens` says whether
`fopen` succeeds. -/
def callerStep (s : CELLLog) (date : String) (opens : Bool) : Option (Exec CELLLog) :=
  match s.caller with
  | .construct => s.onServer .start .starting
  | .starting =>
    if s.server.thread.owner = .idle then some (.ok { s with caller := .idle })
    else s.onServer .owner .starting
  | .idle | .destroyed => none
  | .pathTest args =>
    some (.ok { s with caller := if s.logFile.isSome then .pathInfo args else .pathPrint args })
  | .pathInfo args =>
    some (.ok { s.info (.text "CELLLog::setLogPath _logFile != nullptr") with
      caller := .pathClose args })
  | .pathClose args => some (do return { ← s.fclose with caller := .pathNull args })
  | .pathNull args => some (.ok { s with logFile := none, caller := .pathPrint args })
  | .pathPrint args =>
    some (if (args.path date).utf8ByteSize < 256 then
      .ok { s with logPath := args.path date, caller := .pathOpen args }
    else .error .outOfBounds)
  | .pathOpen args => some (.ok { s.fopen args.mode opens with caller := .pathReport args })
  | .pathReport args =>
    some (.ok { s.info (if s.logFile.isSome then .success args.mode else .failed args.mode) with
      caller := .idle })
  | .closing =>
    if s.server.thread.owner = .idle then some (.ok { s with caller := .endTest })
    else s.onServer .owner .closing
  | .endTest => some (.ok { s with caller := if s.logFile.isSome then .endInfo else .destroyed })
  | .endInfo =>
    some (.ok { s.info (.text "CELLLog fclose(_logFile)") with caller := .endClose })
  | .endClose => some (do return { ← s.fclose with caller := .endNull })
  | .endNull => some (.ok { s with logFile := none, caller := .destroyed })

end CELLLog

/-- What can happen to the log. -/
inductive LogAct
  /-- A thread calls `Info`, `Warring`, `Error` or `Debug`. -/
  | echo (type text : String)
  /-- A thread calls `PError`. -/
  | pError (text : String) (errCode : ℤ) (errMsg : String)
  /-- `setLogPath` is called. -/
  | setLogPath (args : SetLogPath)
  /-- The destructor is called. -/
  | destroy
  /-- The caller's next step in the constructor, in `setLogPath` or in the destructor. -/
  | caller (date : String) (opens : Bool)
  /-- The worker's next step. -/
  | worker (time : String)
  deriving DecidableEq, Repr

/-- `Instance()` has returned, and the log is not destroyed. -/
def LogPC.Usable : LogPC → Prop
  | .construct | .starting | .destroyed => False
  | _ => True

instance : DecidablePred LogPC.Usable
  | .construct | .starting | .destroyed => isFalse not_false
  | .idle | .pathTest _ | .pathInfo _ | .pathClose _ | .pathNull _ | .pathPrint _ | .pathOpen _
  | .pathReport _ | .closing | .endTest | .endInfo | .endClose | .endNull => isTrue trivial

/-- One action. -/
def CELLLog.act (s : CELLLog) : LogAct → Option (Exec CELLLog)
  | .echo type text =>
    if s.caller.Usable then some (.ok (s.log (.echo type (.text text)))) else none
  | .pError text errCode errMsg =>
    if s.caller.Usable then some (.ok (s.log (.pError text errCode errMsg))) else none
  | .setLogPath args =>
    if s.caller = .idle then some (.ok { s with caller := .pathTest args }) else none
  | .destroy => if s.caller = .idle then s.onServer .close .closing else none
  | .caller date opens => s.callerStep date opens
  | .worker time => s.workerStep time

/-- `setLogPath` is only called while there is no file. -/
def CELLLog.SetOnce (s : CELLLog) : LogAct → Prop
  | .setLogPath _ => s.logFile = none
  | .echo .. | .pError .. | .destroy | .caller .. | .worker _ => True

instance (s : CELLLog) : DecidablePred s.SetOnce
  | .setLogPath _ => inferInstanceAs (Decidable (s.logFile = none))
  | .echo .. | .pError .. | .destroy | .caller .. | .worker _ => isTrue trivial

/-- The log with the threads that use it. -/
def cellLog : Machine CELLLog LogAct UB where
  init := (· = .new)
  step s a r := s.act a = some r

/-- The pieces of a line : the type, what comes behind it, and the end of the line. -/
def EchoReal.line (c : EchoReal) (pieces : List String) : List String :=
  c.type :: pieces ++ if c.br then ["\n"] else []

/-- `pieces` is what `EchoReal` prints on the terminal. -/
def EchoReal.Prints (c : EchoReal) (pieces : List String) : Prop :=
  ∃ logPath, pieces = c.line [c.text.format logPath]

/-- `pieces` is what `EchoReal` prints into a file. -/
def EchoReal.Files (c : EchoReal) (pieces : List String) : Prop :=
  ∃ time logPath, pieces = c.line ["[" ++ time ++ "]", c.text.format logPath]

namespace CELLLog

variable {s t : CELLLog} {a : LogAct} {c : EchoReal} {calls : List EchoReal}

/-! ## Steps -/

theorem fprintf_eq_ok {str : String} (h : s.fprintf str = .ok t) : ∃ f file, s.logFile = some f ∧
    s.files[f]? = some file ∧ file.isOpen = true ∧
    t = { s with files := s.files.set f { file with written := file.written ++ [str] } } := by
  unfold fprintf at h
  cases hf : s.logFile with
  | none => simp [hf] at h
  | some f =>
    cases hfile : s.files[f]? with
    | none => simp [hf, hfile] at h
    | some file =>
      simp only [hf, hfile] at h
      split at h
      · exact ⟨f, file, rfl, hfile, ‹_›, (Except.ok.inj h).symm⟩
      · cases h

theorem fclose_eq_ok (h : s.fclose = .ok t) : ∃ f file, s.logFile = some f ∧
    s.files[f]? = some file ∧ file.isOpen = true ∧
    t = { s with files := s.files.set f { file with isOpen := false } } := by
  unfold fclose at h
  cases hf : s.logFile with
  | none => simp [hf] at h
  | some f =>
    cases hfile : s.files[f]? with
    | none => simp [hf, hfile] at h
    | some file =>
      simp only [hf, hfile] at h
      split at h
      · exact ⟨f, file, rfl, hfile, ‹_›, (Except.ok.inj h).symm⟩
      · cases h

theorem fflush_eq_ok (h : s.fflush = .ok t) : t = s := by
  unfold fflush at h
  split at h
  · exact (Except.ok.inj h).symm
  · split at h
    · cases h
    · split at h
      · exact (Except.ok.inj h).symm
      · cases h

/-- What a step of the caller does, from and to which place. -/
inductive Called (s : CELLLog) (a : LogAct) : CELLLog → Prop
  | server {x : TaskAct LogTask} {server : CELLTaskServer LogTask} {caller : LogPC}
    (hact : s.server.act x = some server)
    (hpc : (x = .start ∧ s.caller = .construct ∧ caller = .starting) ∨
      (x = .owner ∧ s.caller = .starting ∧ caller = .starting) ∨
      (x = .close ∧ s.caller = .idle ∧ caller = .closing) ∨
      (x = .owner ∧ s.caller = .closing ∧ caller = .closing)) :
    Called s a { s with server, caller }
  /-- `Start` or `Close` has returned. -/
  | returned {caller : LogPC} (hidle : s.server.thread.owner = .idle)
    (hpc : (s.caller = .starting ∧ caller = .idle) ∨ (s.caller = .closing ∧ caller = .endTest)) :
    Called s a { s with caller }
  | setLogPath {args : SetLogPath} (ha : a = .setLogPath args) (hpc : s.caller = .idle) :
    Called s a { s with caller := .pathTest args }
  /-- There is a file. -/
  | found {f : ℕ} {caller : LogPC} (hfile : s.logFile = some f)
    (hpc : (∃ args, s.caller = .pathTest args ∧ caller = .pathInfo args) ∨
      (s.caller = .endTest ∧ caller = .endInfo)) : Called s a { s with caller }
  /-- There is no file. -/
  | missing {caller : LogPC} (hfile : s.logFile = none)
    (hpc : (∃ args, s.caller = .pathTest args ∧ caller = .pathPrint args) ∨
      (s.caller = .endTest ∧ caller = .destroyed)) : Called s a { s with caller }
  | info {text : LogText} {caller : LogPC}
    (hpc : (∃ args, s.caller = .pathInfo args ∧ caller = .pathClose args) ∨
      (∃ args, s.caller = .pathReport args ∧ caller = .idle) ∨
      (s.caller = .endInfo ∧ caller = .endClose ∧ text = .text "CELLLog fclose(_logFile)")) :
    Called s a { s.info text with caller }
  | fclose {f : ℕ} {file : FILE} {caller : LogPC} (hf : s.logFile = some f)
    (hfile : s.files[f]? = some file) (hopen : file.isOpen = true)
    (hpc : (∃ args, s.caller = .pathClose args ∧ caller = .pathNull args) ∨
      (s.caller = .endClose ∧ caller = .endNull)) :
    Called s a { s with files := s.files.set f { file with isOpen := false }, caller }
  | null {caller : LogPC}
    (hpc : (∃ args, s.caller = .pathNull args ∧ caller = .pathPrint args) ∨
      (s.caller = .endNull ∧ caller = .destroyed)) :
    Called s a { s with logFile := none, caller }
  | print {args : SetLogPath} {logPath : String} (hpc : s.caller = .pathPrint args) :
    Called s a { s with logPath, caller := .pathOpen args }
  | fopen {args : SetLogPath} {opens : Bool} (hpc : s.caller = .pathOpen args) :
    Called s a { s.fopen args.mode opens with caller := .pathReport args }

theorem onServer_eq {x : TaskAct LogTask} {caller : LogPC}
    (h : s.onServer x caller = some (.ok t)) :
    ∃ server, s.server.act x = some server ∧ t = { s with server, caller } := by
  obtain ⟨server, hact, hok⟩ := Option.map_eq_some_iff.mp h
  exact ⟨server, hact, (Except.ok.inj hok).symm⟩

theorem callerStep_called {date : String} {opens : Bool}
    (h : s.callerStep date opens = some (.ok t)) :
    s.Called (.caller date opens) t := by
  have hok : ∀ {u : CELLLog}, some (Except.ok u : Exec CELLLog) = some (.ok t) → u = t :=
    fun h => Except.ok.inj (Option.some.inj h)
  unfold callerStep at h
  cases hpc : s.caller with simp only [hpc] at h
  | construct =>
    obtain ⟨server, hact, rfl⟩ := onServer_eq h
    exact .server hact (Or.inl ⟨rfl, hpc, rfl⟩)
  | starting =>
    split at h
    · obtain rfl := hok h
      exact .returned ‹_› (Or.inl ⟨hpc, rfl⟩)
    · obtain ⟨server, hact, rfl⟩ := onServer_eq h
      exact .server hact (Or.inr (Or.inl ⟨rfl, hpc, rfl⟩))
  | idle => cases h
  | destroyed => cases h
  | pathTest args =>
    obtain rfl := hok h
    split
    · obtain ⟨f, hfile⟩ := Option.isSome_iff_exists.mp ‹_›
      exact .found hfile (Or.inl ⟨args, hpc, rfl⟩)
    · exact .missing (Option.not_isSome_iff_eq_none.mp ‹_›) (Or.inl ⟨args, hpc, rfl⟩)
  | pathInfo args =>
    obtain rfl := hok h
    exact .info (Or.inl ⟨args, hpc, rfl⟩)
  | pathClose args =>
    obtain ⟨u, hclose, hok⟩ := Fallible.bind_eq_ok.mp (Option.some.inj h)
    obtain rfl := Except.ok.inj hok
    obtain ⟨f, file, hf, hfile, hopen, rfl⟩ := fclose_eq_ok hclose
    exact .fclose hf hfile hopen (Or.inl ⟨args, hpc, rfl⟩)
  | pathNull args =>
    obtain rfl := hok h
    exact .null (Or.inl ⟨args, hpc, rfl⟩)
  | pathPrint args =>
    split at h
    · obtain rfl := hok h
      exact .print hpc
    · cases h
  | pathOpen args =>
    obtain rfl := hok h
    exact .fopen hpc
  | pathReport args =>
    obtain rfl := hok h
    exact .info (Or.inr (Or.inl ⟨args, hpc, rfl⟩))
  | closing =>
    split at h
    · obtain rfl := hok h
      exact .returned ‹_› (Or.inr ⟨hpc, rfl⟩)
    · obtain ⟨server, hact, rfl⟩ := onServer_eq h
      exact .server hact (Or.inr (Or.inr (Or.inr ⟨rfl, hpc, rfl⟩)))
  | endTest =>
    obtain rfl := hok h
    split
    · obtain ⟨f, hfile⟩ := Option.isSome_iff_exists.mp ‹_›
      exact .found hfile (Or.inr ⟨hpc, rfl⟩)
    · exact .missing (Option.not_isSome_iff_eq_none.mp ‹_›) (Or.inr ⟨hpc, rfl⟩)
  | endInfo =>
    obtain rfl := hok h
    exact .info (Or.inr (Or.inr ⟨hpc, rfl, rfl⟩))
  | endClose =>
    obtain ⟨u, hclose, hok⟩ := Fallible.bind_eq_ok.mp (Option.some.inj h)
    obtain rfl := Except.ok.inj hok
    obtain ⟨f, file, hf, hfile, hopen, rfl⟩ := fclose_eq_ok hclose
    exact .fclose hf hfile hopen (Or.inr ⟨hpc, rfl⟩)
  | endNull =>
    obtain rfl := hok h
    exact .null (Or.inr ⟨hpc, rfl⟩)

/-- What a step of `EchoReal` does for `c`, with `calls` behind it. -/
inductive Echoed (s : CELLLog) (c : EchoReal) (calls : List EchoReal) : CELLLog → Prop
  | test (hpc : s.echo = .test) :
    Echoed s c calls { s with echo := if s.logFile.isSome then .fileType else .type }
  | fprintf {f : ℕ} {file : FILE} {str : String} {echo : EchoPC} (hf : s.logFile = some f)
    (hfile : s.files[f]? = some file) (hopen : file.isOpen = true)
    (hpc : (s.echo = .fileType ∧ str = c.type ∧ echo = .fileTime) ∨
      (s.echo = .fileTime ∧ (∃ time, str = "[" ++ time ++ "]") ∧ echo = .fileText) ∨
      (s.echo = .fileText ∧ str = c.text.format s.logPath ∧ echo = .fileBr) ∨
      (s.echo = .fileBr ∧ (c.br = true ∧ str = "\n") ∧ echo = .flush)) :
    Echoed s c calls { s with
      files := s.files.set f { file with written := file.written ++ [str] }, echo }
  | skip {echo : EchoPC} (hpc : (s.echo = .fileBr ∧ c.br = false ∧ echo = .flush) ∨
      (s.echo = .flush ∧ echo = .type)) : Echoed s c calls { s with echo }
  | printf {str : String} {echo : EchoPC} (hpc : (s.echo = .type ∧ str = c.type ∧ echo = .text) ∨
      (s.echo = .text ∧ str = c.text.format s.logPath ∧ echo = .br)) :
    Echoed s c calls { s with stdout := s.stdout ++ [str], echo }
  | done (hpc : s.echo = .br) : Echoed s c calls { s with
      stdout := s.stdout ++ if c.br then ["\n"] else [], echo := .test, calls }

theorem echoReal_echoed {time : String} (h : s.echoReal c calls time = .ok t) :
    s.Echoed c calls t := by
  unfold echoReal at h
  cases hpc : s.echo with simp only [hpc] at h
  | test =>
    obtain rfl := Except.ok.inj h
    exact .test hpc
  | fileType =>
    obtain ⟨u, hprint, hok⟩ := Fallible.bind_eq_ok.mp h
    obtain rfl := Except.ok.inj hok
    obtain ⟨f, file, hf, hfile, hopen, rfl⟩ := fprintf_eq_ok hprint
    exact .fprintf hf hfile hopen (Or.inl ⟨hpc, rfl, rfl⟩)
  | fileTime =>
    obtain ⟨u, hprint, hok⟩ := Fallible.bind_eq_ok.mp h
    obtain rfl := Except.ok.inj hok
    obtain ⟨f, file, hf, hfile, hopen, rfl⟩ := fprintf_eq_ok hprint
    exact .fprintf hf hfile hopen (Or.inr (Or.inl ⟨hpc, ⟨time, rfl⟩, rfl⟩))
  | fileText =>
    obtain ⟨u, hprint, hok⟩ := Fallible.bind_eq_ok.mp h
    obtain rfl := Except.ok.inj hok
    obtain ⟨f, file, hf, hfile, hopen, rfl⟩ := fprintf_eq_ok hprint
    exact .fprintf hf hfile hopen (Or.inr (Or.inr (Or.inl ⟨hpc, rfl, rfl⟩)))
  | fileBr =>
    split at h
    · obtain ⟨u, hprint, hok⟩ := Fallible.bind_eq_ok.mp h
      obtain rfl := Except.ok.inj hok
      obtain ⟨f, file, hf, hfile, hopen, rfl⟩ := fprintf_eq_ok hprint
      exact .fprintf hf hfile hopen (Or.inr (Or.inr (Or.inr ⟨hpc, ⟨‹_›, rfl⟩, rfl⟩)))
    · obtain rfl := Except.ok.inj h
      exact .skip (Or.inl ⟨hpc, Bool.eq_false_iff.mpr ‹_›, rfl⟩)
  | flush =>
    obtain ⟨u, hflush, hok⟩ := Fallible.bind_eq_ok.mp h
    obtain rfl := Except.ok.inj hok
    obtain rfl := fflush_eq_ok hflush
    exact .skip (Or.inr ⟨hpc, rfl⟩)
  | type =>
    obtain rfl := Except.ok.inj h
    exact .printf (Or.inl ⟨hpc, rfl, rfl⟩)
  | text =>
    obtain rfl := Except.ok.inj h
    exact .printf (Or.inr ⟨hpc, rfl, rfl⟩)
  | br =>
    obtain rfl := Except.ok.inj h
    have hdone : s.Echoed c calls { s with
        stdout := s.stdout ++ if c.br then ["\n"] else [], echo := .test, calls } := .done hpc
    by_cases hbr : c.br = true
    · rw [if_pos hbr] at hdone ⊢
      exact hdone
    · rw [if_neg hbr, List.append_nil] at hdone
      rw [if_neg hbr]
      exact hdone

/-- What an action does. -/
inductive Stepped (s : CELLLog) : LogAct → CELLLog → Prop
  | log {a : LogAct} (task : LogTask) (husable : s.caller.Usable) : Stepped s a (s.log task)
  | called {a : LogAct} {t : CELLLog} (h : s.Called a t) : Stepped s a t
  /-- The worker is between two calls of `EchoReal`. -/
  | worked {time : String} {server : CELLTaskServer LogTask} (hcalls : s.calls = [])
    (hwork : s.server.workerStep [] = some server) :
    Stepped s (.worker time) { s with
      server, calls := logCalls (server.executed.drop s.server.executed.length) }
  | echoed {time : String} {c : EchoReal} {calls : List EchoReal} {t : CELLLog}
    (hcalls : s.calls = c :: calls) (hecho : s.Echoed c calls t) : Stepped s (.worker time) t

theorem stepped (h : s.act a = some (.ok t)) : s.Stepped a t := by
  cases a with
  | echo type text =>
    rw [act] at h
    split at h
    · obtain rfl := Except.ok.inj (Option.some.inj h)
      exact .log _ ‹_›
    · cases h
  | pError text errCode errMsg =>
    rw [act] at h
    split at h
    · obtain rfl := Except.ok.inj (Option.some.inj h)
      exact .log _ ‹_›
    · cases h
  | setLogPath args =>
    rw [act] at h
    split at h
    · obtain rfl := Except.ok.inj (Option.some.inj h)
      exact .called (.setLogPath rfl ‹_›)
    · cases h
  | destroy =>
    rw [act] at h
    split at h
    · obtain ⟨server, hact, rfl⟩ := onServer_eq h
      exact .called (.server hact (Or.inr (Or.inr (Or.inl ⟨rfl, ‹_›, rfl⟩))))
    · cases h
  | caller date opens => exact .called (callerStep_called h)
  | worker time =>
    rw [act, workerStep] at h
    split at h
    · exact .echoed ‹_› (echoReal_echoed (Option.some.inj h))
    · obtain ⟨server, hwork, hok⟩ := Option.map_eq_some_iff.mp h
      obtain rfl := Except.ok.inj hok
      exact .worked ‹_› hwork

/-- What a thread other than the worker leaves to the worker. -/
structure Moved (s t : CELLLog) : Prop where
  calls : t.calls = s.calls
  echo : t.echo = s.echo
  stdout : t.stdout = s.stdout
  run : t.server.run = s.server.run
  executed : t.server.executed = s.server.executed
  added : s.server.added <+: t.server.added
  server : s.server.Sound → t.server.Sound

theorem Moved.of_eq (hcalls : t.calls = s.calls) (hecho : t.echo = s.echo)
    (hstdout : t.stdout = s.stdout) (hserver : t.server = s.server) : s.Moved t :=
  ⟨hcalls, hecho, hstdout, by rw [hserver], by rw [hserver], ⟨[], by rw [List.append_nil, hserver]⟩,
    by rw [hserver]; exact id⟩

theorem Moved.log (s : CELLLog) (task : LogTask) (caller : LogPC) :
    s.Moved { s.log task with caller } :=
  ⟨rfl, rfl, rfl, rfl, rfl, List.prefix_append _ _, fun hs => hs.step (a := .addTask task) rfl⟩

theorem Called.moved (h : s.Called a t) : s.Moved t := by
  cases h with
  | @server x server caller hact hpc =>
    have hframe : server.run = s.server.run ∧ server.executed = s.server.executed ∧
        server.added = s.server.added := by
      have hx : x = .start ∨ x = .close ∨ x = .owner := by tauto
      rcases hx with rfl | rfl | rfl
      · rw [CELLTaskServer.act] at hact
        split at hact
        · cases hact
        · obtain ⟨thread, -, rfl⟩ := CELLTaskServer.onThread_eq hact
          exact ⟨rfl, rfl, rfl⟩
      · rw [CELLTaskServer.act] at hact
        split at hact
        · obtain ⟨thread, -, rfl⟩ := CELLTaskServer.onThread_eq hact
          exact ⟨rfl, rfl, rfl⟩
        · cases hact
      · obtain ⟨thread, -, rfl⟩ := CELLTaskServer.onThread_eq hact
        exact ⟨rfl, rfl, rfl⟩
    obtain ⟨hrun, hexecuted, hadded⟩ := hframe
    exact ⟨rfl, rfl, rfl, hrun, hexecuted, ⟨[], (List.append_nil _).trans hadded.symm⟩,
      fun hs => hs.step hact⟩
  | info => exact .log s _ _
  | fopen =>
    unfold CELLLog.fopen
    split <;> exact .of_eq rfl rfl rfl rfl
  | _ => exact .of_eq rfl rfl rfl rfl

/-! ## The worker and the caller -/

/-- Where the caller is says what the task server has been told. -/
def Fits (server : CELLTaskServer LogTask) : LogPC → Prop
  | .construct => server.started = false ∧ server.atClose = none
  | .starting => server.started = true ∧ server.atClose = none
  | .idle | .pathTest _ | .pathInfo _ | .pathClose _ | .pathNull _ | .pathPrint _ | .pathOpen _
  | .pathReport _ =>
    server.started = true ∧ server.atClose = none ∧ server.thread.owner = .idle
  | .closing => server.atClose ≠ none
  | .endTest | .endInfo | .endClose | .endNull | .destroyed => server.Returns

theorem Fits.of_frame {server server' : CELLTaskServer LogTask} {caller : LogPC}
    (hstarted : server'.started = server.started) (hclose : server'.atClose = server.atClose)
    (howner : server'.thread.owner = server.thread.owner) (h : Fits server caller) :
    Fits server' caller := by
  cases caller <;> simpa only [Fits, CELLTaskServer.Returns, hstarted, hclose, howner] using h

/-- The invariant of the log. -/
structure Sound (s : CELLLog) : Prop where
  server : s.server.Sound
  caller : Fits s.server s.caller
  /-- The worker is in a task only while it is in a loop of `OnRun`. -/
  calls : s.calls ≠ [] → ¬s.server.run.Past
  echo : s.calls = [] → s.echo = .test
  /-- `_logFile` is a file, open but for the moment before it is forgotten. -/
  file : ∀ f, s.logFile = some f → ∃ file, s.files[f]? = some file ∧
    (file.isOpen = true ∨ (∃ args, s.caller = .pathNull args) ∨ s.caller = .endNull)

theorem Sound.new : Sound .new :=
  ⟨⟨.new, .new⟩, ⟨rfl, rfl⟩, fun h => absurd rfl h, fun _ => rfl, fun _ h => by cases h⟩

/-- A step of the caller fits what the task server has been told. -/
theorem Called.fits (h : s.Called a t) (hs : Fits s.server s.caller) :
    Fits t.server t.caller := by
  cases h with
  | server hact hpc =>
    rcases hpc with ⟨rfl, hpc, rfl⟩ | ⟨rfl, hpc, rfl⟩ | ⟨rfl, hpc, rfl⟩ | ⟨rfl, hpc, rfl⟩ <;>
      rw [hpc] at hs <;> rw [CELLTaskServer.act] at hact
    · split at hact
      · cases hact
      · obtain ⟨thread, -, rfl⟩ := CELLTaskServer.onThread_eq hact
        exact ⟨rfl, hs.2⟩
    · obtain ⟨thread, -, rfl⟩ := CELLTaskServer.onThread_eq hact
      exact hs
    · split at hact
      · obtain ⟨thread, -, rfl⟩ := CELLTaskServer.onThread_eq hact
        exact Option.some_ne_none _
      · cases hact
    · obtain ⟨thread, -, rfl⟩ := CELLTaskServer.onThread_eq hact
      exact hs
  | returned hidle hpc =>
    rcases hpc with ⟨hpc, rfl⟩ | ⟨hpc, rfl⟩ <;> rw [hpc] at hs
    · exact ⟨hs.1, hs.2, hidle⟩
    · exact ⟨hs, Or.inr hidle⟩
  | setLogPath ha hpc =>
    rw [hpc] at hs
    exact hs
  | found hfile hpc =>
    rcases hpc with ⟨args, hpc, rfl⟩ | ⟨hpc, rfl⟩ <;> rw [hpc] at hs <;> exact hs
  | missing hfile hpc =>
    rcases hpc with ⟨args, hpc, rfl⟩ | ⟨hpc, rfl⟩ <;> rw [hpc] at hs <;> exact hs
  | info hpc =>
    rcases hpc with ⟨args, hpc, rfl⟩ | ⟨args, hpc, rfl⟩ | ⟨hpc, rfl, -⟩ <;> rw [hpc] at hs <;>
      exact hs
  | fclose hf hfile hopen hpc =>
    rcases hpc with ⟨args, hpc, rfl⟩ | ⟨hpc, rfl⟩ <;> rw [hpc] at hs <;> exact hs
  | null hpc =>
    rcases hpc with ⟨args, hpc, rfl⟩ | ⟨hpc, rfl⟩ <;> rw [hpc] at hs <;> exact hs
  | print hpc =>
    rw [hpc] at hs
    exact hs
  | fopen hpc =>
    rw [hpc] at hs
    unfold CELLLog.fopen
    split <;> exact hs

/-- A step of the caller. -/
theorem Sound.called (hs : s.Sound) (h : s.Called a t) : t.Sound := by
  have hm := h.moved
  refine ⟨hm.server hs.server, h.fits hs.caller, ?_, ?_, fun f hf => ?_⟩
  · rw [hm.calls, hm.run]
    exact hs.calls
  · rw [hm.calls, hm.echo]
    exact hs.echo
  -- a file is only closed on the way to where it is forgotten
  cases h with
  | @fclose g file caller hg hfile hopen hpc =>
    obtain rfl : g = f := Option.some.inj (hg.symm.trans hf)
    refine ⟨_, List.getElem?_set_self (List.getElem?_eq_some_iff.mp hfile).1, Or.inr ?_⟩
    rcases hpc with ⟨args, -, rfl⟩ | ⟨-, rfl⟩
    · exact Or.inl ⟨args, rfl⟩
    · exact Or.inr rfl
  | null => cases hf
  | @fopen args opens hpc =>
    unfold CELLLog.fopen at hf ⊢
    cases opens with
    | true =>
      obtain rfl : s.files.length = f := Option.some.inj hf
      exact ⟨_, List.getElem?_concat_length, Or.inl rfl⟩
    | false => cases hf
  | _ =>
    obtain ⟨file, hfile, hnow⟩ := hs.file f hf
    exact ⟨file, hfile, by grind⟩

theorem Sound.log (hs : s.Sound) (task : LogTask) : (s.log task).Sound :=
  ⟨hs.server.step (a := .addTask task) rfl, hs.caller.of_frame rfl rfl rfl, hs.calls, hs.echo,
    hs.file⟩

/-- A step of the worker between two tasks. -/
theorem Sound.worked (hs : s.Sound) (hcalls : s.calls = [])
    {server : CELLTaskServer LogTask} (h : s.server.workerStep [] = some server) :
    Sound { s with
      server, calls := logCalls (server.executed.drop s.server.executed.length) } := by
  obtain ⟨hstarted, hclose, howner⟩ := CELLTaskServer.workerStep_frame h
  refine ⟨hs.server.step (a := .worker []) h, hs.caller.of_frame hstarted hclose howner,
    fun hne => ?_, fun _ => hs.echo hcalls, hs.file⟩
  rcases CELLTaskServer.workerStep_executes h with ⟨hexecuted, -⟩ | ⟨task, r, -, hto, rfl⟩
  · rw [hexecuted, List.drop_length] at hne
    exact absurd rfl hne
  · exact hto

/-- A step of `EchoReal`. -/
theorem Sound.echoed (hs : s.Sound) (hcalls : s.calls = c :: calls) (h : s.Echoed c calls t) :
    t.Sound := by
  have hpast := hs.calls (by rw [hcalls]; exact List.cons_ne_nil _ _)
  have hne : s.calls ≠ [] := by rw [hcalls]; exact List.cons_ne_nil _ _
  cases h with
  | @fprintf f file str echo hf hfile hopen hpc =>
    refine ⟨hs.server, hs.caller, fun _ => hpast, fun hnil => absurd hnil hne, fun g hg => ?_⟩
    obtain rfl : f = g := Option.some.inj (hf.symm.trans hg)
    exact ⟨_, List.getElem?_set_self (List.getElem?_eq_some_iff.mp hfile).1, Or.inl hopen⟩
  | done => exact ⟨hs.server, hs.caller, fun _ => hpast, fun _ => rfl, hs.file⟩
  | _ => exact ⟨hs.server, hs.caller, fun _ => hpast, fun hnil => absurd hnil hne, hs.file⟩

theorem Sound.step (hs : s.Sound) (h : s.act a = some (.ok t)) : t.Sound := by
  cases stepped h with
  | log task => exact hs.log task
  | called h => exact hs.called h
  | worked hcalls hwork => exact hs.worked hcalls hwork
  | echoed hcalls hecho => exact hs.echoed hcalls hecho

end CELLLog

end CellNet
