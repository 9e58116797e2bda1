import CellNet.ShutDown

/-!
# Closing the server

An `EasySelectServer` or `EasyEpollServer` from `Start` to the end of `Close` : the thread
that waits for the listening socket and calls `Accept`, the threads of the workers, and the
thread that calls `Close`. `Close` stops the first and waits for it, and then deletes the
workers one after the other, each of which it stops and waits for in the same way. A thread
is taken to be over here when its callbacks are. What `OnWork` does behind them, `wakeup` and
`_isRun = false`, is left out, although a worker may be deleted before the second.

`CELLThread::Close` does not wait where `_isRun` is false already. So a worker that gave up,
because its wait failed, is deleted although its thread may be in `ClearClients` still, and
what that thread does then is undefined. And `Close` holds the lock of the thread while it
waits, so a thread that has just found `_isRun` set in `Exit` stays in front of that lock for
ever. Apart from that, `Exit` is one step.

Each step is one of `tcpServer` or none (`easyServer_refines`), so what is known of its runs
holds here. `Sound` says how far the two threads of the server are. `untilClosed` counts what
is left of `Close`, and `Stuck` is the state in which it gets no further. Elsewhere its next step
can be taken, unless the worker it waits for is in a `DoMsg` that never ends
(`server_close_returns`). `Joined` is what it leaves when it has waited for every worker
(`server_close_clean_iff`).
-/

namespace CellNet

/-! ## The threads -/

/-- What the wait for the listening socket finds. -/
inductive AcceptResult
  /-- The call fails, with `EINTR` or not. -/
  | fail (eintr : Bool)
  /-- Whether the socket can be read. -/
  | ready (readable : Bool)
  deriving DecidableEq, Repr

/-- Where the thread that accepts is in `OnRun`. -/
inductive AcceptPC
  /-- `while (pThread->isRun())`. -/
  | test
  /-- Behind `time4msg`. -/
  | wait
  /-- In front of `Accept`. -/
  | accept
  /-- In `Exit`, in front of the lock. -/
  | exit
  | ended
  deriving DecidableEq, Repr

/-- Where the thread that calls `Close` is. -/
inductive ClosePC
  | idle
  /-- It waits for the thread that accepts. -/
  | join
  /-- In front of `delete s` for the next worker. -/
  | next
  /-- It waits for the thread of that worker. -/
  | joinWorker
  | closed
  deriving DecidableEq, Repr

/-- A server with the thread that accepts, and the thread that closes it. -/
structure EasyServer where
  server : EasyTcpServer
  /-- `_isRun` of `_thread`. -/
  isRun : Bool
  accept : AcceptPC
  close : ClosePC
  /-- How many workers are deleted. -/
  deleted : ℕ
  /-- The workers whose threads are in `Exit`, in front of the lock. -/
  exits : List ℕ

/-- What can happen to a server. -/
inductive EasyAct
  /-- The test of the loop, and `time4msg`, where `log` says that a second is over. -/
  | test (log : Bool)
  /-- The wait for the listening socket. -/
  | wait (r : AcceptResult)
  /-- `Accept`, of the descriptor `cSock`. -/
  | accept (cSock : SOCKET) (sendMem recvMem : ℕ → UInt8)
  /-- `Exit` of the thread that accepts, from the lock on. -/
  | exit
  /-- `DoNetEvents` of the worker `i` fails, and `Exit` up to the lock. -/
  | workExit (i : ℕ) (sys : SysCalls)
  /-- The next section of the worker `i`. -/
  | work (i : ℕ) (sys : SysCalls)
  /-- The next step of the thread that calls `Close`. -/
  | close

/-- What `select` finds. -/
def AcceptResult.select (sock : SOCKET) : AcceptResult → SelectResult
  | fail eintr => .fail eintr
  | ready readable => .ready (if readable then [sock] else []) []

/-- One pass of `EasySelectServer::OnRun` up to `Accept` : where it goes on. -/
def selectAccept (sock : SOCKET) (r : AcceptResult) : Exec AcceptPC := do
  let fdRead ← CELLFDSet.zero.add sock
  let (ret, fdRead, _) ← select (sock + 1) fdRead .zero false (r.select sock)
  if ret < 0 then
    if (r.select sock).eintr then return .test
    else return .ended
  else if ← fdRead.has sock then return .accept
  else return .test

/-- One pass of `EasyEpollServer::OnRun` up to `Accept`. `wait` returns no event for `EINTR`. -/
def epollAccept : AcceptResult → Exec AcceptPC
  | .fail eintr => return if eintr then .test else .ended
  | .ready readable => return if readable then .accept else .test

/-- `DoNetEvents` fails, and `Exit` finds `_isRun` set. -/
def ServerState.givesUp (s : ServerState) (sys : SysCalls) : Bool :=
  s.srv.pc = .doNetEvents && s.srv.isRun &&
    match s.doNetEvents sys with
    | .ok (ok, _) => !ok
    | .error _ => false

theorem ServerState.running_of_givesUp {s : ServerState} {sys : SysCalls}
    (hgives : s.givesUp sys) : s.srv.pc = .doNetEvents ∧ s.srv.isRun = true := by
  rw [givesUp, Bool.and_eq_true, Bool.and_eq_true, decide_eq_true_iff] at hgives
  exact hgives.1

namespace EasyServer

/-- The wait of the thread that accepts. -/
def waitAccept (kind : ServerKind) (sock : SOCKET) (r : AcceptResult) : Exec AcceptPC :=
  match kind with
  | .select => selectAccept sock r
  | .epoll => epollAccept r

/-- The thread that accepts behind its wait. It calls `Exit` where it ends. -/
def waited (s : EasyServer) (pc : AcceptPC) : EasyServer :=
  if pc = .ended ∧ s.isRun then { s with accept := .exit } else { s with accept := pc }

/-- A step of `EasyTcpServer::Close`. -/
def closeStep (s : EasyServer) : Option EasyServer :=
  match s.close with
  | .idle =>
    some { s with isRun := false, close := if s.isRun then .join else .next }
  | .join => if s.accept = .ended then some { s with close := .next } else none
  | .next =>
    match s.server.cellServers[s.deleted]? with
    | some srv =>
      if srv.isRun then
        some { s with
          server := s.server.put s.deleted (s.server.view srv).close
          close := .joinWorker }
      -- there is no wait for a thread that has called `Exit`
      else some { s with deleted := s.deleted + 1 }
    | none => some { s with close := .closed }
  | .joinWorker =>
    match s.server.cellServers[s.deleted]? with
    | some srv =>
      -- `OnWork` calls `wakeup` behind the callbacks
      if srv.pc = .ended then some { s with close := .next, deleted := s.deleted + 1 } else none
    | none => none
  | .closed => none

/-- `Close` holds the lock of the worker `i`. -/
def Locks (s : EasyServer) (i : ℕ) : Prop :=
  s.close = .joinWorker ∧ i = s.deleted

instance (s : EasyServer) (i : ℕ) : Decidable (s.Locks i) :=
  inferInstanceAs (Decidable (_ ∧ _))

/-- `Exit` of the worker `i` up to the lock. -/
def workExit (s : EasyServer) (i : ℕ) (sys : SysCalls) : Option EasyServer :=
  match s.server.cellServers[i]? with
  | some srv =>
    if s.deleted ≤ i ∧ i ∉ s.exits ∧ (s.server.view srv).givesUp sys then
      some { s with exits := i :: s.exits }
    else none
  | none => none

/-- A section of the worker `i`, which uses the worker. Where its thread is in `Exit`, it is the
section with the wait that failed, of which nobody has seen anything up to the lock. -/
def workStep (h : Handler) (n : ℕ) (s : EasyServer) (i : ℕ) (sys : SysCalls) :
    Option (Exec EasyServer) :=
  match s.server.cellServers[i]? with
  | some srv =>
    if srv.pc = .ended then none
    else if i < s.deleted then some (.error .useAfterFree)
    else if i ∈ s.exits ∧ (s.Locks i ∨ ¬(s.server.view srv).givesUp sys) then none
    else (s.server.act h n (.work i sys)).map
      ((fun t => { s with server := t, exits := s.exits.filter (· ≠ i) }) <$> ·)
  | none => none

/-- One action, in which a loop ends after at most `n` tests. -/
def act (h : Handler) (kind : ServerKind) (n : ℕ) (s : EasyServer) :
    EasyAct → Option (Exec EasyServer)
  | .test log =>
    if s.accept = .test then
      if s.isRun then
        let server := if log then s.server.time4msg else s.server
        some (.ok { s with server, accept := .wait })
      else some (.ok { s with accept := .ended })
    else none
  | .wait r =>
    if s.accept = .wait then some (s.waited <$> waitAccept kind s.server.sock r) else none
  | .accept cSock sendMem recvMem =>
    if s.accept = .accept then
      some ((fun t => { s with server := t, accept := .test }) <$>
        s.server.accept cSock sendMem recvMem)
    else none
  | .exit =>
    if s.accept = .exit ∧ s.close ≠ .join then
      some (.ok { s with isRun := false, accept := .ended })
    else none
  | .workExit i sys => (s.workExit i sys).map .ok
  | .work i sys => s.workStep h n i sys
  | .close => s.closeStep.map .ok

/-- The action of `tcpServer` that an action is. -/
def tcpAct (s : EasyServer) : EasyAct → Option TcpAct
  | .test log => if s.isRun ∧ log then some .time4msg else none
  | .wait _ | .exit | .workExit _ _ => none
  | .accept cSock sendMem recvMem => some (.accept cSock sendMem recvMem)
  | .work i sys => some (.work i sys)
  | .close =>
    if s.close = .next ∧ ∃ srv ∈ s.server.cellServers[s.deleted]?, srv.isRun then
      some (.close s.deleted)
    else none

/-- What the kernel promises for an action. -/
def Kernel (s : EasyServer) (a : EasyAct) : Prop :=
  ∀ b ∈ s.tcpAct a, s.server.Kernel b

instance (s : EasyServer) (a : EasyAct) : Decidable (s.Kernel a) :=
  inferInstanceAs (Decidable (∀ b ∈ s.tcpAct a, s.server.Kernel b))

end EasyServer

/-- A started `EasySelectServer` or `EasyEpollServer` that is closed at some time. -/
def easyServer (h : Handler) (kind : ServerKind) : Machine EasyServer EasyAct UB :=
  .ofFn (fun s => (tcpServer h kind).init s.server ∧ s.isRun = true ∧ s.accept = .test ∧
    s.close = .idle ∧ s.deleted = 0 ∧ s.exits = []) EasyServer.Kernel (EasyServer.act h kind)

namespace EasyServer

/-- An `EasySelectServer` with `n` workers that has just been started. -/
def newSelect (n : ℕ) (nMaxClient : ℤ) : EasyServer :=
  ⟨.newSelect n nMaxClient, true, .test, .idle, 0, []⟩

theorem newSelect_init (h : Handler) (n : ℕ) (nMaxClient : ℤ) :
    (easyServer h .select).init (newSelect n nMaxClient) :=
  ⟨EasyTcpServer.newSelect_init h n nMaxClient, rfl, rfl, rfl, rfl, rfl⟩

variable {s t : EasyServer} {a : EasyAct} {i : ℕ} {srv : CELLServer} {h : Handler}
  {kind : ServerKind}

/-! ## Steps -/

/-- What an action does. -/
inductive Stepped (h : Handler) (kind : ServerKind) (s : EasyServer) : EasyAct → EasyServer → Prop
  | tested {log : Bool} (hpc : s.accept = .test) (hrun : s.isRun = true) :
    Stepped h kind s (.test log)
      { s with server := if log then s.server.time4msg else s.server, accept := .wait }
  | ended {log : Bool} (hpc : s.accept = .test) (hrun : s.isRun = false) :
    Stepped h kind s (.test log) { s with accept := .ended }
  | waited {r : AcceptResult} (hpc : s.accept = .wait) (pc : AcceptPC)
    (hne : pc ≠ .wait ∧ pc ≠ .exit) : Stepped h kind s (.wait r) (s.waited pc)
  | accepted {cSock : SOCKET} {sendMem recvMem : ℕ → UInt8} {u : EasyTcpServer}
    (hpc : s.accept = .accept)
    (hstep : (tcpServer h kind).step s.server (.accept cSock sendMem recvMem) (.ok u)) :
    Stepped h kind s (.accept cSock sendMem recvMem) { s with server := u, accept := .test }
  | exited (hpc : s.accept = .exit) (hclose : s.close ≠ .join) :
    Stepped h kind s .exit { s with isRun := false, accept := .ended }
  | workExited {i : ℕ} {sys : SysCalls} {srv : CELLServer}
    (hi : s.server.cellServers[i]? = some srv) (hpc : srv.pc = .doNetEvents)
    (hrun : srv.isRun = true) : Stepped h kind s (.workExit i sys) { s with exits := i :: s.exits }
  | worked {i : ℕ} {sys : SysCalls} {u : EasyTcpServer} (hi : s.deleted ≤ i)
    (hlock : i ∈ s.exits → ¬s.Locks i)
    (hstep : (tcpServer h kind).step s.server (.work i sys) (.ok u)) :
    Stepped h kind s (.work i sys) { s with server := u, exits := s.exits.filter (· ≠ i) }
  | called (hpc : s.close = .idle) :
    Stepped h kind s .close { s with isRun := false, close := if s.isRun then .join else .next }
  | joined (hpc : s.close = .join) (haccept : s.accept = .ended) :
    Stepped h kind s .close { s with close := .next }
  | stopped {srv : CELLServer} {u : EasyTcpServer} (hpc : s.close = .next)
    (hi : s.server.cellServers[s.deleted]? = some srv) (hrun : srv.isRun = true)
    (hstep : (tcpServer h kind).step s.server (.close s.deleted) (.ok u)) :
    Stepped h kind s .close { s with server := u, close := .joinWorker }
  | unawaited {srv : CELLServer} (hpc : s.close = .next)
    (hi : s.server.cellServers[s.deleted]? = some srv) (hrun : srv.isRun = false) :
    Stepped h kind s .close { s with deleted := s.deleted + 1 }
  | awaited {srv : CELLServer} (hpc : s.close = .joinWorker)
    (hi : s.server.cellServers[s.deleted]? = some srv) (hend : srv.pc = .ended) :
    Stepped h kind s .close { s with close := .next, deleted := s.deleted + 1 }
  | closed (hpc : s.close = .next) (hi : s.server.cellServers[s.deleted]? = none) :
    Stepped h kind s .close { s with close := .closed }

theorem waitAccept_ne {sock : SOCKET} {r : AcceptResult} {pc : AcceptPC}
    (h : waitAccept kind sock r = .ok pc) : pc ≠ .wait ∧ pc ≠ .exit := by
  have htest : AcceptPC.test ≠ .wait ∧ AcceptPC.test ≠ .exit := by decide
  have haccept : AcceptPC.accept ≠ .wait ∧ AcceptPC.accept ≠ .exit := by decide
  have hended : AcceptPC.ended ≠ .wait ∧ AcceptPC.ended ≠ .exit := by decide
  cases kind with
  | select =>
    obtain ⟨fdRead, -, h⟩ := Fallible.bind_eq_ok.mp h
    obtain ⟨⟨ret, fdRead', w⟩, -, h⟩ := Fallible.bind_eq_ok.mp h
    dsimp only at h
    split at h
    · split at h <;> obtain rfl := Except.ok.inj h <;> assumption
    · obtain ⟨b, -, h⟩ := Fallible.bind_eq_ok.mp h
      split at h <;> obtain rfl := Except.ok.inj h <;> assumption
  | epoll =>
    cases r with
    | fail eintr =>
      obtain rfl := Except.ok.inj h
      cases eintr <;> assumption
    | ready readable =>
      obtain rfl := Except.ok.inj h
      cases readable <;> assumption

theorem closeStep_stepped (hk : s.Kernel .close) (hact : s.closeStep = some t) :
    s.Stepped h kind .close t := by
  unfold closeStep at hact
  split at hact
  · obtain rfl := Option.some.inj hact
    exact .called ‹_›
  · split at hact
    · obtain rfl := Option.some.inj hact
      exact .joined ‹_› ‹_›
    · cases hact
  · rename_i hpc
    split at hact
    · rename_i srv hi
      split at hact
      · rename_i hrun
        obtain rfl := Option.some.inj hact
        have htcp : s.tcpAct .close = some (.close s.deleted) := if_pos ⟨hpc, srv, hi, hrun⟩
        refine .stopped hpc hi hrun ⟨hk _ htcp, 0, ?_⟩
        rw [EasyTcpServer.act, EasyTcpServer.onServer, hi]
        rfl
      · rename_i hrun
        obtain rfl := Option.some.inj hact
        exact .unawaited hpc hi (Bool.eq_false_iff.mpr hrun)
    · obtain rfl := Option.some.inj hact
      exact .closed hpc ‹_›
  · rename_i hpc
    split at hact
    · split at hact
      · obtain rfl := Option.some.inj hact
        exact .awaited hpc ‹_› ‹_›
      · cases hact
    · cases hact
  · cases hact

theorem stepped (hstep : (easyServer h kind).step s a (.ok t)) : s.Stepped h kind a t := by
  obtain ⟨hk, n, hact⟩ := hstep
  cases a with
  | test log =>
    rw [act] at hact
    split at hact
    · split at hact
      · obtain rfl := Except.ok.inj (Option.some.inj hact)
        exact .tested ‹_› ‹_›
      · rename_i hrun
        obtain rfl := Except.ok.inj (Option.some.inj hact)
        exact .ended ‹_› (Bool.eq_false_iff.mpr hrun)
    · cases hact
  | wait r =>
    rw [act] at hact
    split at hact
    · obtain ⟨pc, hpc, rfl⟩ := Exec.map_eq_ok.mp (Option.some.inj hact)
      exact .waited ‹_› pc (waitAccept_ne hpc)
    · cases hact
  | accept cSock sendMem recvMem =>
    rw [act] at hact
    split at hact
    · obtain ⟨u, hu, rfl⟩ := Exec.map_eq_ok.mp (Option.some.inj hact)
      refine .accepted ‹_› ⟨hk _ rfl, n, ?_⟩
      rw [EasyTcpServer.act, hu]
    · cases hact
  | work i sys =>
    rw [act, workStep] at hact
    split at hact
    · split at hact
      · cases hact
      · split at hact
        · cases hact
        · rename_i hi
          split at hact
          · cases hact
          · rename_i hexit
            obtain ⟨r, hr, hmap⟩ := Option.map_eq_some_iff.mp hact
            obtain ⟨u, rfl, rfl⟩ := Exec.map_eq_ok.mp hmap
            refine .worked (Nat.not_lt.mp hi) (fun hmem hlock => ?_) ⟨hk _ rfl, n, hr⟩
            exact hexit ⟨hmem, Or.inl hlock⟩
    · cases hact
  | exit =>
    rw [act] at hact
    split at hact
    · rename_i hand
      obtain rfl := Except.ok.inj (Option.some.inj hact)
      exact .exited hand.1 hand.2
    · cases hact
  | workExit i sys =>
    obtain ⟨u, hu, hut⟩ := Option.map_eq_some_iff.mp hact
    obtain rfl := Except.ok.inj hut
    rw [workExit] at hu
    split at hu
    · rename_i srv hi
      split at hu
      · rename_i hand
        obtain rfl := Option.some.inj hu
        obtain ⟨-, -, hgives⟩ := hand
        obtain ⟨hpc, hrun⟩ := ServerState.running_of_givesUp hgives
        exact .workExited hi hpc hrun
      · cases hu
    · cases hu
  | close =>
    obtain ⟨u, hu, hut⟩ := Option.map_eq_some_iff.mp hact
    obtain rfl := Except.ok.inj hut
    exact closeStep_stepped hk hu

/-- A step is the one of `tcpServer` that `tcpAct` gives, or leaves the server as it is. -/
theorem Stepped.tcp (hstep : s.Stepped h kind a t) :
    (∀ b, s.tcpAct a = some b → (tcpServer h kind).step s.server b (.ok t.server)) ∧
      (s.tcpAct a = none → t.server = s.server) := by
  have hsame : s.tcpAct a = none → t.server = s.server →
      (∀ b, s.tcpAct a = some b → (tcpServer h kind).step s.server b (.ok t.server)) ∧
        (s.tcpAct a = none → t.server = s.server) := by
    intro hnone hserver
    refine ⟨fun b hb => ?_, fun _ => hserver⟩
    rw [hnone] at hb
    cases hb
  have hone : ∀ b, s.tcpAct a = some b → (tcpServer h kind).step s.server b (.ok t.server) →
      (∀ b, s.tcpAct a = some b → (tcpServer h kind).step s.server b (.ok t.server)) ∧
        (s.tcpAct a = none → t.server = s.server) := by
    intro b hsome hst
    refine ⟨fun b' hb' => ?_, fun hnone => ?_⟩
    · obtain rfl := Option.some.inj (hsome.symm.trans hb')
      exact hst
    · rw [hsome] at hnone
      cases hnone
  cases hstep with
  | @tested log hpc hrun =>
    cases log with
    | true => exact hone .time4msg (if_pos ⟨hrun, rfl⟩) ⟨trivial, 0, rfl⟩
    | false => exact hsame (if_neg fun hlog => Bool.false_ne_true hlog.2) rfl
  | ended hpc hrun =>
    exact hsame (if_neg fun hlog => Bool.false_ne_true (hrun.symm.trans hlog.1)) rfl
  | waited hpc pc hne =>
    refine hsame rfl ?_
    unfold EasyServer.waited
    split <;> rfl
  | accepted hpc hst => exact hone _ rfl hst
  | exited => exact hsame rfl rfl
  | workExited => exact hsame rfl rfl
  | worked hi hlock hst => exact hone _ rfl hst
  | called hpc =>
    refine hsame (if_neg fun hand => ?_) rfl
    rw [hpc] at hand
    cases hand.1
  | joined hpc haccept =>
    refine hsame (if_neg fun hand => ?_) rfl
    rw [hpc] at hand
    cases hand.1
  | stopped hpc hi hrun hst => exact hone _ (if_pos ⟨hpc, _, hi, hrun⟩) hst
  | unawaited hpc hi hrun =>
    refine hsame (if_neg fun hand => ?_) rfl
    obtain ⟨-, srv', hi', hrun'⟩ := hand
    obtain rfl := Option.some.inj (hi.symm.trans hi')
    exact Bool.false_ne_true (hrun.symm.trans hrun')
  | awaited hpc hi hend =>
    refine hsame (if_neg fun hand => ?_) rfl
    rw [hpc] at hand
    cases hand.1
  | closed hpc hi =>
    refine hsame (if_neg fun hand => ?_) rfl
    obtain ⟨-, srv', hi', -⟩ := hand
    rw [hi] at hi'
    cases hi'

end EasyServer

/-- A run of the server with its threads is a run of `tcpServer`. -/
theorem easyServer_refines {h : Handler} {kind : ServerKind} {s t : EasyServer}
    {tr : List (EasyServer × EasyAct)} (hrun : (easyServer h kind).Run s tr t) :
    (tcpServer h kind).Run s.server
      (tr.filterMap fun x => (x.1.tcpAct x.2).map fun b => (x.1.server, b)) t.server :=
  hrun.refine (fun _ _ _ b hb hst => (EasyServer.stepped hst).tcp.1 b hb)
    fun _ _ _ hnone hst => (EasyServer.stepped hst).tcp.2 hnone

namespace EasyTcpServer

variable {s t : EasyTcpServer} {b : TcpAct} {i : ℕ} {srv : CELLServer} {h : Handler}
  {kind : ServerKind}

/-! ## The other workers -/

theorem Owned.length_step (ho : s.Owned) (hstep : (tcpServer h kind).step s b (.ok t)) :
    t.cellServers.length = s.cellServers.length := by
  cases ho.stepped hstep with
  | refused => rfl
  | accepted => exact List.length_set
  | logged => rfl
  | closed => exact List.length_set
  | worked => exact List.length_set

/-- Where the thread of the worker `i` is. -/
def pcOf (s : EasyTcpServer) (i : ℕ) : Option PC :=
  s.cellServers[i]?.map CELLServer.pc

theorem Owned.pcOf_step (ho : s.Owned) (hstep : (tcpServer h kind).step s b (.ok t))
    (hb : b.isWork i = false) : t.pcOf i = s.pcOf i := by
  rw [pcOf, pcOf]
  cases hi : s.cellServers[i]? with
  | none =>
    rw [List.getElem?_eq_none_iff, ← ho.length_step hstep, ← List.getElem?_eq_none_iff] at hi
    rw [hi]
  | some srv =>
    obtain ⟨srv', hi', hpc, -⟩ := ho.other_step hstep hb hi
    rw [hi', Option.map_some, Option.map_some, hpc]

end EasyTcpServer

namespace EasyServer

variable {s t : EasyServer} {a : EasyAct} {i : ℕ} {srv : CELLServer} {h : Handler}
  {kind : ServerKind}

/-! ## What the threads keep -/

/-- What holds where the thread that calls `Close` is. -/
def At (s : EasyServer) : ClosePC → Prop
  | .idle => s.deleted = 0 ∧ (s.isRun = false → s.accept = .ended)
  | .join => s.deleted = 0 ∧ s.isRun = false
  | .next => s.accept = .ended
  | .joinWorker => s.accept = .ended ∧ s.server.Stopped s.deleted
  | .closed => s.accept = .ended ∧ s.deleted = s.server.cellServers.length

/-- The invariant of the server with its threads. -/
structure Sound (s : EasyServer) : Prop where
  owned : s.server.Owned
  bound : s.deleted ≤ s.server.cellServers.length
  phase : s.At s.close
  exits : ∀ i ∈ s.exits, s.server.pcOf i = some .doNetEvents

theorem Sound.init (hinit : (easyServer h kind).init s) : s.Sound := by
  obtain ⟨hserver, hrun, -, hclose, hdeleted, hexits⟩ := hinit
  refine ⟨.init hserver, hdeleted ▸ Nat.zero_le _, ?_, by simp [hexits]⟩
  rw [hclose]
  exact ⟨hdeleted, fun hfalse => absurd (hfalse.symm.trans hrun) Bool.false_ne_true⟩

/-- As long as the thread that accepts is not over, no worker is deleted. -/
theorem Sound.running (hs : s.Sound) (hne : s.accept ≠ .ended) : s.deleted = 0 ∧
    (s.close = .idle ∧ s.isRun = true ∨ s.close = .join ∧ s.isRun = false) := by
  have hphase := hs.phase
  cases hclose : s.close <;> rw [hclose] at hphase
  case idle =>
    exact ⟨hphase.1, Or.inl ⟨rfl, Bool.eq_true_of_not_eq_false fun hrun => hne (hphase.2 hrun)⟩⟩
  case join => exact ⟨hphase.1, Or.inr ⟨rfl, hphase.2⟩⟩
  case next => exact absurd hphase hne
  case joinWorker => exact absurd hphase.1 hne
  case closed => exact absurd hphase.1 hne

/-- A step of the thread that accepts. -/
theorem Sound.at_of_running (hs : s.Sound) (hne : s.accept ≠ .ended)
    (hdeleted : t.deleted = s.deleted) (hrun : s.isRun = false → t.isRun = false)
    (hexit : s.isRun = true → t.isRun = false → t.accept = .ended) : t.At s.close := by
  obtain ⟨hzero, ⟨hclose, htrue⟩ | ⟨hclose, hfalse⟩⟩ := hs.running hne
  · rw [hclose]
    exact ⟨hdeleted.trans hzero, hexit htrue⟩
  · rw [hclose]
    exact ⟨hdeleted.trans hzero, hrun hfalse⟩

theorem Sound.step (hs : s.Sound) (hstep : (easyServer h kind).step s a (.ok t)) : t.Sound := by
  have hserver : ∀ {u : EasyTcpServer} {b : TcpAct},
      (tcpServer h kind).step s.server b (.ok u) →
      u.Owned ∧ s.deleted ≤ u.cellServers.length ∧
        u.cellServers.length = s.server.cellServers.length := fun hst =>
    have hlength := hs.owned.length_step hst
    ⟨hs.owned.step hst, hlength ▸ hs.bound, hlength⟩
  have hexits : ∀ {u : EasyTcpServer} {b : TcpAct},
      (tcpServer h kind).step s.server b (.ok u) →
      ∀ i ∈ s.exits, b.isWork i = false → u.pcOf i = some .doNetEvents := fun hst i hi hb =>
    (hs.owned.pcOf_step hst hb).trans (hs.exits i hi)
  have hphase := hs.phase
  cases stepped hstep with
  | @tested log hpc hrun =>
    have hne : s.accept ≠ .ended := hpc.trans_ne AcceptPC.noConfusion
    have howned : (if log then s.server.time4msg else s.server).Owned ∧
        (if log then s.server.time4msg else s.server).cellServers = s.server.cellServers := by
      cases log with
      | true => exact ⟨(hserver (b := .time4msg) ⟨trivial, 0, rfl⟩).1, rfl⟩
      | false => exact ⟨hs.owned, rfl⟩
    refine ⟨howned.1, howned.2 ▸ hs.bound, hs.at_of_running hne rfl id
      fun _ hfalse => absurd (hfalse.symm.trans hrun) Bool.false_ne_true, fun i hi => ?_⟩
    rw [← hs.exits i hi, EasyTcpServer.pcOf, EasyTcpServer.pcOf, howned.2]
  | ended hpc hrun =>
    have hne : s.accept ≠ .ended := hpc.trans_ne AcceptPC.noConfusion
    exact ⟨hs.owned, hs.bound, hs.at_of_running hne rfl id fun _ _ => rfl, hs.exits⟩
  | waited hpc pc =>
    have hne : s.accept ≠ .ended := hpc.trans_ne AcceptPC.noConfusion
    unfold EasyServer.waited
    split <;> exact ⟨hs.owned, hs.bound, hs.at_of_running hne rfl id
      fun htrue hfalse => absurd (hfalse.symm.trans htrue) Bool.false_ne_true, hs.exits⟩
  | accepted hpc hst =>
    have hne : s.accept ≠ .ended := hpc.trans_ne AcceptPC.noConfusion
    obtain ⟨howned, hbound, -⟩ := hserver hst
    exact ⟨howned, hbound, hs.at_of_running hne rfl id
      fun htrue hfalse => absurd (hfalse.symm.trans htrue) Bool.false_ne_true,
      fun i hi => hexits hst i hi rfl⟩
  | exited hpc hclose =>
    have hne : s.accept ≠ .ended := hpc.trans_ne AcceptPC.noConfusion
    exact ⟨hs.owned, hs.bound, hs.at_of_running hne rfl (fun _ => rfl) fun _ _ => rfl, hs.exits⟩
  | workExited hi hpc hrun =>
    refine ⟨hs.owned, hs.bound, hphase, fun j hj => ?_⟩
    rcases List.mem_cons.mp hj with rfl | hj
    · rw [EasyTcpServer.pcOf, hi, Option.map_some, hpc]
    · exact hs.exits j hj
  | worked hi hlock hst =>
    obtain ⟨howned, hbound, hlength⟩ := hserver hst
    refine ⟨howned, hbound, ?_, fun j hj => ?_⟩
    · dsimp only
      cases hclose : s.close <;> rw [hclose] at hphase
      case idle => exact hphase
      case join => exact hphase
      case next => exact hphase
      case joinWorker => exact ⟨hphase.1, (hs.owned.stopped_step hst hphase.2).1⟩
      case closed => exact ⟨hphase.1, hphase.2.trans hlength.symm⟩
    · obtain ⟨hmem, hne⟩ := List.mem_filter.mp hj
      refine hexits hst j hmem (decide_eq_false fun heq => ?_)
      exact of_decide_eq_true hne heq.symm
  | called hpc =>
    rw [hpc] at hphase
    refine ⟨hs.owned, hs.bound, ?_, hs.exits⟩
    cases hrun : s.isRun with
    | true => exact ⟨hphase.1, rfl⟩
    | false => exact hphase.2 hrun
  | joined hpc haccept => exact ⟨hs.owned, hs.bound, haccept, hs.exits⟩
  | stopped hpc hi hrun hst =>
    rw [hpc] at hphase
    obtain ⟨howned, hbound, -⟩ := hserver hst
    refine ⟨howned, hbound, ⟨hphase, ?_⟩, fun i hi => hexits hst i hi rfl⟩
    cases hs.owned.stepped hst with
    | @closed _ srv' hi' =>
      refine ⟨(s.server.view srv').close.srv, ?_, rfl⟩
      rw [EasyTcpServer.getElem?_put hi', if_pos rfl]
  | unawaited hpc hi hrun =>
    rw [hpc] at hphase
    obtain ⟨hlt, -⟩ := List.getElem?_eq_some_iff.mp hi
    refine ⟨hs.owned, hlt, ?_, hs.exits⟩
    dsimp only
    rw [hpc]
    exact hphase
  | awaited hpc hi hend =>
    rw [hpc] at hphase
    obtain ⟨hlt, -⟩ := List.getElem?_eq_some_iff.mp hi
    exact ⟨hs.owned, hlt, hphase.1, hs.exits⟩
  | closed hpc hi =>
    rw [hpc] at hphase
    refine ⟨hs.owned, hs.bound, ⟨hphase, ?_⟩, hs.exits⟩
    exact le_antisymm hs.bound (List.getElem?_eq_none_iff.mp hi)

/-! ## What is left of `Close` -/

end EasyServer

/-- The steps left to the thread that accepts when it is told to stop. -/
def AcceptPC.untilEnd : AcceptPC → ℕ
  | .ended => 0
  | .test | .exit => 1
  | .accept => 2
  | .wait => 3

namespace EasyServer

variable {s t : EasyServer} {a : EasyAct} {i : ℕ} {srv : CELLServer} {h : Handler}
  {kind : ServerKind}

/-- The steps left to `Close` once it is called, of its thread and of those it waits for. -/
def untilClosed (s : EasyServer) : ℕ :=
  match s.close with
  | .idle => 0
  | .join => s.accept.untilEnd + 9 * (s.server.cellServers.length - s.deleted) + 2
  | .next => 9 * (s.server.cellServers.length - s.deleted) + 1
  | .joinWorker =>
    s.server.untilEnd s.deleted + 9 * (s.server.cellServers.length - s.deleted - 1) + 2
  | .closed => 0

/-- A step of the thread that calls `Close`, or of one that it stops. The thread of a worker is
one of them while it is waited for. -/
def ofClose (s : EasyServer) : EasyAct → Bool
  | .work i _ => s.Locks i
  | .workExit _ _ => false
  | .test _ | .wait _ | .accept _ _ _ | .exit | .close => true

theorem Sound.untilClosed_le (hs : s.Sound) :
    s.untilClosed ≤ 9 * s.server.cellServers.length + 5 := by
  have hphase := hs.phase
  unfold untilClosed
  cases hclose : s.close <;> rw [hclose] at hphase <;> dsimp only
  case idle => omega
  case join =>
    have haccept : s.accept.untilEnd ≤ 3 := by cases s.accept <;> decide
    omega
  case next => omega
  case joinWorker =>
    obtain ⟨srv, hi, -⟩ := hphase.2
    obtain ⟨hlt, -⟩ := List.getElem?_eq_some_iff.mp hi
    have hend := srv.pc.untilEnd_le
    rw [EasyTcpServer.untilEnd_eq hi]
    omega
  case closed => omega

/-- Once `Close` is called, each step of the threads concerned leaves less to do. -/
theorem Sound.untilClosed_step (hs : s.Sound) (hcalled : s.close ≠ .idle)
    (hstep : (easyServer h kind).step s a (.ok t)) :
    t.close ≠ .idle ∧ t.untilClosed + (s.ofClose a).toNat ≤ s.untilClosed := by
  have hphase := hs.phase
  -- the thread that accepts takes steps only while it is waited for
  have hjoin : s.accept ≠ .ended → s.close = .join ∧ s.isRun = false := fun hne =>
    ((hs.running hne).2.resolve_left fun hand => hcalled hand.1)
  cases stepped hstep with
  | tested hpc hrun =>
    obtain ⟨-, hfalse⟩ := hjoin (hpc.trans_ne AcceptPC.noConfusion)
    exact absurd (hfalse.symm.trans hrun) Bool.false_ne_true
  | ended hpc hrun =>
    obtain ⟨hclose, -⟩ := hjoin (hpc.trans_ne AcceptPC.noConfusion)
    refine ⟨hcalled, ?_⟩
    simp only [untilClosed, hclose, hpc, AcceptPC.untilEnd, ofClose, Bool.toNat_true]
    omega
  | waited hpc pc hne =>
    obtain ⟨hclose, -⟩ := hjoin (hpc.trans_ne AcceptPC.noConfusion)
    have hleft : pc.untilEnd ≤ 2 := by
      cases pc with
      | wait => exact absurd rfl hne.1
      | _ => decide
    have hthree : s.accept.untilEnd = 3 := by rw [hpc, AcceptPC.untilEnd]
    have hone : AcceptPC.exit.untilEnd = 1 := rfl
    unfold EasyServer.waited
    split
    · refine ⟨hcalled, ?_⟩
      simp only [untilClosed, hclose, ofClose, Bool.toNat_true]
      omega
    · refine ⟨hcalled, ?_⟩
      simp only [untilClosed, hclose, ofClose, Bool.toNat_true]
      omega
  | accepted hpc hst =>
    obtain ⟨hclose, -⟩ := hjoin (hpc.trans_ne AcceptPC.noConfusion)
    have hlength := hs.owned.length_step hst
    refine ⟨hcalled, ?_⟩
    simp only [untilClosed, hclose, hpc, hlength, AcceptPC.untilEnd, ofClose, Bool.toNat_true]
    omega
  | exited hpc hne =>
    obtain ⟨hclose, -⟩ := hjoin (hpc.trans_ne AcceptPC.noConfusion)
    exact absurd hclose hne
  | workExited => exact ⟨hcalled, le_of_eq rfl⟩
  | @worked i sys u hi hlock hst =>
    have hlength := hs.owned.length_step hst
    refine ⟨hcalled, ?_⟩
    cases hclose : s.close <;> rw [hclose] at hphase
    case idle => exact absurd hclose hcalled
    case joinWorker =>
      obtain ⟨-, hle⟩ := hs.owned.stopped_step hst hphase.2
      rw [TcpAct.isWork] at hle
      simp only [untilClosed, hclose, hlength, ofClose, Locks, true_and]
      omega
    all_goals
      simp only [untilClosed, hclose, hlength, ofClose, Locks, reduceCtorEq, false_and,
        decide_false, Bool.toNat_false, add_zero, le_refl]
  | called hpc => exact absurd hpc hcalled
  | joined hpc haccept =>
    refine ⟨ClosePC.noConfusion, ?_⟩
    simp only [untilClosed, hpc, ofClose, Bool.toNat_true]
    omega
  | stopped hpc hi hrun hst =>
    have hlength := hs.owned.length_step hst
    obtain ⟨hlt, -⟩ := List.getElem?_eq_some_iff.mp hi
    have hend : ∀ u : EasyTcpServer, u.untilEnd s.deleted ≤ 7 := by
      intro u
      rw [EasyTcpServer.untilEnd]
      cases u.cellServers[s.deleted]? with
      | none => exact Nat.zero_le 7
      | some srv => exact srv.pc.untilEnd_le
    refine ⟨ClosePC.noConfusion, ?_⟩
    simp only [untilClosed, hpc, hlength, ofClose, Bool.toNat_true]
    have hle := hend (by assumption)
    omega
  | unawaited hpc hi hrun =>
    obtain ⟨hlt, -⟩ := List.getElem?_eq_some_iff.mp hi
    refine ⟨hcalled, ?_⟩
    simp only [untilClosed, hpc, ofClose, Bool.toNat_true]
    omega
  | awaited hpc hi hend =>
    obtain ⟨hlt, -⟩ := List.getElem?_eq_some_iff.mp hi
    refine ⟨ClosePC.noConfusion, ?_⟩
    simp only [untilClosed, hpc, ofClose, Bool.toNat_true]
    omega
  | closed hpc hi =>
    refine ⟨ClosePC.noConfusion, ?_⟩
    simp only [untilClosed, hpc, ofClose, Bool.toNat_true]
    omega

/-! ## The lock of `Exit` -/

/-- `Close` waits for a thread that is in front of the lock of `Exit`, which `Close` holds. -/
def Stuck (s : EasyServer) : Prop :=
  s.close = .join ∧ s.accept = .exit ∨ s.close = .joinWorker ∧ s.deleted ∈ s.exits

/-- Where `Close` clears `_isRun`, the thread is not in front of the lock of `Exit`. -/
def ClearsApart (s : EasyServer) : EasyAct → Prop
  | .close => (s.close = .idle → s.isRun = true → s.accept ≠ .exit) ∧
    (s.close = .next → ∀ srv ∈ s.server.cellServers[s.deleted]?, srv.isRun = true →
      s.deleted ∉ s.exits)
  | _ => True

theorem stuck_congr (hclose : t.close = s.close) (hdeleted : t.deleted = s.deleted)
    (haccept : s.close = .join → (t.accept = .exit ↔ s.accept = .exit))
    (hexits : s.close = .joinWorker → (s.deleted ∈ t.exits ↔ s.deleted ∈ s.exits)) :
    t.Stuck ↔ s.Stuck := by
  rw [Stuck, Stuck, hclose, hdeleted]
  exact or_congr (and_congr_right haccept) (and_congr_right hexits)

theorem not_stuck_of_ne (hjoin : s.close ≠ .join) (hworker : s.close ≠ .joinWorker) :
    ¬s.Stuck := by
  rintro (⟨hclose, -⟩ | ⟨hclose, -⟩)
  · exact hjoin hclose
  · exact hworker hclose

/-- `Close` is called. -/
theorem called_not_stuck_iff (hpc : s.close = .idle) :
    ¬Stuck { s with isRun := false, close := if s.isRun then .join else .next } ↔
      ¬s.Stuck ∧ s.ClearsApart .close := by
  have hs : ¬s.Stuck :=
    not_stuck_of_ne (hpc.trans_ne ClosePC.noConfusion) (hpc.trans_ne ClosePC.noConfusion)
  have hnext : s.close ≠ .next := hpc.trans_ne ClosePC.noConfusion
  refine Iff.trans ?_ (and_iff_right hs).symm
  cases hrun : s.isRun with
  | true =>
    refine ⟨fun hns => ⟨fun _ _ haccept => hns (Or.inl ⟨rfl, haccept⟩),
      fun hclose => absurd hclose hnext⟩, fun hapart => ?_⟩
    rintro (⟨-, haccept⟩ | ⟨hclose, -⟩)
    · exact hapart.1 hpc hrun haccept
    · cases hclose
  | false =>
    refine iff_of_true (not_stuck_of_ne ClosePC.noConfusion ClosePC.noConfusion)
      ⟨fun _ htrue => ?_, fun hclose => absurd hclose hnext⟩
    exact absurd (hrun.symm.trans htrue) Bool.false_ne_true

/-- `Close` stops a worker. -/
theorem stopped_not_stuck_iff {u : EasyTcpServer} (hpc : s.close = .next)
    (hi : s.server.cellServers[s.deleted]? = some srv) (hrun : srv.isRun = true) :
    ¬Stuck { s with server := u, close := .joinWorker } ↔ ¬s.Stuck ∧ s.ClearsApart .close := by
  have hs : ¬s.Stuck :=
    not_stuck_of_ne (hpc.trans_ne ClosePC.noConfusion) (hpc.trans_ne ClosePC.noConfusion)
  refine Iff.trans ?_ (and_iff_right hs).symm
  refine ⟨fun hns => ⟨?_, fun _ _ _ _ hmem => hns (Or.inr ⟨rfl, hmem⟩)⟩, fun hapart => ?_⟩
  · exact fun hclose => absurd (hpc.symm.trans hclose) ClosePC.noConfusion
  · rintro (⟨hclose, -⟩ | ⟨-, hmem⟩)
    · cases hclose
    · exact hapart.2 hpc _ hi hrun hmem

/-- A step of `Close` that clears no flag and waits for nobody. -/
theorem left_not_stuck_iff (ht : t.close ≠ .join ∧ t.close ≠ .joinWorker) (hs : ¬s.Stuck)
    (hidle : s.close ≠ .idle) (hnext : s.close = .next →
      ∀ srv ∈ s.server.cellServers[s.deleted]?, srv.isRun = false) :
    ¬t.Stuck ↔ ¬s.Stuck ∧ s.ClearsApart .close := by
  refine iff_of_true (not_stuck_of_ne ht.1 ht.2) ⟨hs, fun hclose => absurd hclose hidle, ?_⟩
  intro hclose srv hi hrun
  exact absurd ((hnext hclose srv hi).symm.trans hrun) Bool.false_ne_true

/-- A step of another thread that leaves the two threads concerned where they are. -/
theorem Sound.other_stuck_iff (hs : s.Sound) (hstep : s.Stepped h kind a t) (ha : a ≠ .close) :
    t.Stuck ↔ s.Stuck := by
  have hphase := hs.phase
  have hmoved : t.close = s.close → t.deleted = s.deleted → t.exits = s.exits →
      s.accept ≠ .exit → t.accept ≠ .exit → (t.Stuck ↔ s.Stuck) :=
    fun hclose hdeleted hexits hne hne' => stuck_congr hclose hdeleted
      (fun _ => iff_of_false hne' hne) fun _ => by rw [hexits]
  cases hstep with
  | tested hpc hrun =>
    exact hmoved rfl rfl rfl (hpc.trans_ne AcceptPC.noConfusion) AcceptPC.noConfusion
  | ended hpc hrun =>
    exact hmoved rfl rfl rfl (hpc.trans_ne AcceptPC.noConfusion) AcceptPC.noConfusion
  | waited hpc pc hne =>
    refine stuck_congr ?_ ?_ (fun hclose => ?_) fun _ => ?_
    · unfold EasyServer.waited
      split <;> rfl
    · unfold EasyServer.waited
      split <;> rfl
    · rw [hclose] at hphase
      have hfalse : ¬(pc = .ended ∧ s.isRun = true) := fun hand =>
        Bool.false_ne_true (hphase.2.symm.trans hand.2)
      rw [EasyServer.waited, if_neg hfalse, hpc]
      exact iff_of_false hne.2 AcceptPC.noConfusion
    · unfold EasyServer.waited
      split <;> rfl
  | accepted hpc hst =>
    exact hmoved rfl rfl rfl (hpc.trans_ne AcceptPC.noConfusion) AcceptPC.noConfusion
  | exited hpc hne =>
    exact stuck_congr rfl rfl (fun hclose => absurd hclose hne) fun _ => Iff.rfl
  | workExited hi hpc hrun =>
    refine stuck_congr rfl rfl (fun _ => Iff.rfl) fun hclose => ?_
    rw [hclose] at hphase
    obtain ⟨srv', hi', hfalse⟩ := hphase.2
    refine List.mem_cons.trans (or_iff_right fun heq => ?_)
    rw [heq] at hi'
    obtain rfl := Option.some.inj (hi.symm.trans hi')
    exact Bool.false_ne_true (hfalse.symm.trans hrun)
  | worked hi hlock hst =>
    refine stuck_congr rfl rfl (fun _ => Iff.rfl) fun hclose => ?_
    refine List.mem_filter.trans (and_iff_left_of_imp fun hmem => decide_eq_true fun heq => ?_)
    exact hlock (heq ▸ hmem) ⟨hclose, heq.symm⟩
  | _ => exact absurd rfl ha

theorem Sound.not_stuck_iff (hs : s.Sound) (hstep : (easyServer h kind).step s a (.ok t)) :
    ¬t.Stuck ↔ ¬s.Stuck ∧ s.ClearsApart a := by
  cases a with
  | close =>
    have hnot : s.close = .next → ¬s.Stuck := fun hpc =>
      not_stuck_of_ne (hpc.trans_ne ClosePC.noConfusion) (hpc.trans_ne ClosePC.noConfusion)
    cases stepped hstep with
    | called hpc => exact called_not_stuck_iff hpc
    | joined hpc haccept =>
      refine left_not_stuck_iff ⟨ClosePC.noConfusion, ClosePC.noConfusion⟩ ?_
        (hpc.trans_ne ClosePC.noConfusion)
        fun hclose => absurd (hpc.symm.trans hclose) ClosePC.noConfusion
      rintro (⟨-, hexit⟩ | ⟨hclose, -⟩)
      · exact absurd (haccept.symm.trans hexit) AcceptPC.noConfusion
      · exact absurd (hpc.symm.trans hclose) ClosePC.noConfusion
    | stopped hpc hi hrun => exact stopped_not_stuck_iff hpc hi hrun
    | unawaited hpc hi hrun =>
      refine left_not_stuck_iff ⟨hpc.trans_ne ClosePC.noConfusion, hpc.trans_ne ClosePC.noConfusion⟩
        (hnot hpc) (hpc.trans_ne ClosePC.noConfusion) fun _ srv' hi' => ?_
      obtain rfl := Option.some.inj (hi.symm.trans hi')
      exact hrun
    | awaited hpc hi hend =>
      refine left_not_stuck_iff ⟨ClosePC.noConfusion, ClosePC.noConfusion⟩ ?_
        (hpc.trans_ne ClosePC.noConfusion)
        fun hclose => absurd (hpc.symm.trans hclose) ClosePC.noConfusion
      rintro (⟨hclose, -⟩ | ⟨-, hmem⟩)
      · exact absurd (hpc.symm.trans hclose) ClosePC.noConfusion
      · have hpcOf := hs.exits _ hmem
        rw [EasyTcpServer.pcOf, hi, Option.map_some, hend] at hpcOf
        cases hpcOf
    | closed hpc hi =>
      refine left_not_stuck_iff ⟨ClosePC.noConfusion, ClosePC.noConfusion⟩ (hnot hpc)
        (hpc.trans_ne ClosePC.noConfusion) fun _ srv' hi' => ?_
      rw [hi] at hi'
      cases hi'
  | _ =>
    have hother := hs.other_stuck_iff (stepped hstep) (by simp)
    exact (not_congr hother).trans (and_iff_left trivial).symm

theorem Stuck.step (hstuck : s.Stuck) (hs : s.Sound)
    (hstep : (easyServer h kind).step s a (.ok t)) : t.Stuck :=
  not_not.mp fun hns => ((hs.not_stuck_iff hstep).mp hns).1 hstuck

/-! ## The next step of `Close` -/

/-- The action is the next step of `Close`, or of the thread that it waits for. -/
def Due (s : EasyServer) : EasyAct → Prop
  | .test _ => s.close = .join ∧ s.accept = .test
  | .wait _ => s.close = .join ∧ s.accept = .wait
  | .accept _ _ _ => s.close = .join ∧ s.accept = .accept
  | .work i _ => s.Locks i ∧ s.server.pcOf i ≠ some .ended
  | .close => s.close = .next ∨ s.close = .join ∧ s.accept = .ended ∨
      s.close = .joinWorker ∧ s.server.pcOf s.deleted = some .ended
  | .exit | .workExit _ _ => False

/-- The worker that `Close` waits for meets no header of `0` in `DoMsg`. -/
def Passable (s : EasyServer) : Prop :=
  s.close = .joinWorker → ∀ srv ∈ s.server.cellServers[s.deleted]?, (s.server.view srv).Passable

theorem ofClose_of_due (hdue : s.Due a) : s.ofClose a = true := by
  cases a with
  | work i sys => exact decide_eq_true hdue.1
  | exit => rfl
  | workExit i sys => exact absurd hdue not_false
  | _ => rfl

/-- Unless `Close` is over or stuck, a step is due. -/
theorem Sound.exists_due (hs : s.Sound) (hcalled : s.close ≠ .idle) (hopen : s.close ≠ .closed)
    (hstuck : ¬s.Stuck) : ∃ a, s.Due a ∧ s.Kernel a := by
  have hclose : s.Kernel .close := by
    intro b hb
    simp only [tcpAct] at hb
    split at hb
    · obtain rfl := Option.some.inj hb
      trivial
    · cases hb
  have hphase := hs.phase
  cases hc : s.close <;> rw [hc] at hphase
  case idle => exact absurd hc hcalled
  case closed => exact absurd hc hopen
  case next => exact ⟨.close, Or.inl hc, hclose⟩
  case join =>
    cases ha : s.accept with
    | test => exact ⟨.test false, ⟨hc, ha⟩, fun b hb => by simp [tcpAct] at hb⟩
    | wait => exact ⟨.wait (.fail true), ⟨hc, ha⟩, fun b hb => by simp [tcpAct] at hb⟩
    | accept =>
      refine ⟨.accept INVALID_SOCKET (fun _ => 0) fun _ => 0, ⟨hc, ha⟩, fun b hb => ?_⟩
      obtain rfl := Option.some.inj hb
      exact fun hne => absurd rfl hne
    | exit => exact absurd (Or.inl ⟨hc, ha⟩) hstuck
    | ended => exact ⟨.close, Or.inr (Or.inl ⟨hc, ha⟩), hclose⟩
  case joinWorker =>
    by_cases hend : s.server.pcOf s.deleted = some .ended
    · exact ⟨.close, Or.inr (Or.inr ⟨hc, hend⟩), hclose⟩
    · refine ⟨.work s.deleted ⟨0, fun _ => true, .fail true, .fail true, fun _ => .fail,
        fun _ => .accept 0⟩, ⟨⟨hc, rfl⟩, hend⟩, fun b hb => ?_⟩
      obtain rfl := Option.some.inj hb
      intro srv _
      unfold ServerState.Reports
      split <;> trivial

/-- The thread of the worker that `Close` waits for. -/
theorem Sound.work_due_iff (hs : s.Sound) (hfilled : s.server.Filled) (hstuck : ¬s.Stuck)
    {sys : SysCalls} (hc : s.close = .joinWorker) (hend : s.server.pcOf s.deleted ≠ some .ended)
    (hk : s.Kernel (.work s.deleted sys)) :
    (∃ r, (easyServer h kind).step s (.work s.deleted sys) r) ↔ s.Passable := by
  have hphase := hs.phase
  rw [hc] at hphase
  obtain ⟨-, srv, hi, -⟩ := hphase
  have hpc : srv.pc ≠ .ended := by
    intro hpc
    rw [EasyTcpServer.pcOf, hi, Option.map_some, hpc] at hend
    exact hend rfl
  have hexits : s.deleted ∉ s.exits := fun hmem => hstuck (Or.inr ⟨hc, hmem⟩)
  have hact : ∀ n, act h kind n s (.work s.deleted sys) =
      (s.server.act h n (.work s.deleted sys)).map
        ((fun t => { s with server := t, exits := s.exits.filter (· ≠ s.deleted) }) <$> ·) := by
    intro n
    rw [act, workStep, hi]
    dsimp only
    rw [if_neg hpc, if_neg (Nat.lt_irrefl _), if_neg fun hand => hexits hand.1]
  have hpass : s.Passable ↔ (s.server.view srv).Passable := by
    rw [Passable, forall_prop_of_true hc, hi]
    simp only [Option.mem_some_iff, forall_eq']
  have hwork : (∃ x, (tcpServer h kind).step s.server (.work s.deleted sys) x) ↔
      (s.server.view srv).Passable := hfilled.work_iff hi hpc (hk _ rfl srv hi)
  rw [hpass, ← hwork]
  constructor
  · rintro ⟨r, -, n, hn⟩
    rw [hact] at hn
    obtain ⟨x, hx, -⟩ := Option.map_eq_some_iff.mp hn
    exact ⟨x, hk _ rfl, n, hx⟩
  · rintro ⟨x, -, n, hx⟩
    have hn := hact n
    rw [hx] at hn
    exact ⟨_, hk, n, hn⟩

/-- The thread that calls `Close`. -/
theorem closeStep_of_due (hdue : s.Due .close) : (∃ u, s.closeStep = some u) ∧ s.Passable := by
  rcases hdue with hc | ⟨hc, ha⟩ | ⟨hc, hend⟩
  · refine ⟨?_, fun hjoin => absurd (hc.symm.trans hjoin) ClosePC.noConfusion⟩
    simp only [closeStep, hc]
    split
    · split <;> exact ⟨_, rfl⟩
    · exact ⟨_, rfl⟩
  · refine ⟨?_, fun hjoin => absurd (hc.symm.trans hjoin) ClosePC.noConfusion⟩
    simp only [closeStep, hc, ha, if_true]
    exact ⟨_, rfl⟩
  · obtain ⟨srv, hi, hpc⟩ := Option.map_eq_some_iff.mp hend
    refine ⟨?_, fun _ srv' hi' hmsg => ?_⟩
    · simp only [closeStep, hc, hi, hpc, if_true]
      exact ⟨_, rfl⟩
    · obtain rfl := Option.some.inj (hi.symm.trans hi')
      exact absurd (hpc.symm.trans hmsg) PC.noConfusion

/-- A step that is due can be taken, except a `DoMsg` that never ends. -/
theorem Sound.due_iff (hs : s.Sound) (hfilled : s.server.Filled) (hstuck : ¬s.Stuck)
    (hdue : s.Due a) (hk : s.Kernel a) : (∃ r, (easyServer h kind).step s a r) ↔ s.Passable := by
  -- the thread that accepts
  have hjoin : s.close = .join → (∃ r, act h kind 0 s a = some r) →
      ((∃ r, (easyServer h kind).step s a r) ↔ s.Passable) := fun hc ⟨r, hr⟩ =>
    iff_of_true ⟨r, hk, 0, hr⟩ fun hw => absurd (hc.symm.trans hw) ClosePC.noConfusion
  cases a with
  | test log =>
    refine hjoin hdue.1 ?_
    rw [act, if_pos hdue.2]
    split <;> exact ⟨_, rfl⟩
  | wait r => exact hjoin hdue.1 ⟨_, if_pos hdue.2⟩
  | accept cSock sendMem recvMem => exact hjoin hdue.1 ⟨_, if_pos hdue.2⟩
  | exit => exact absurd hdue not_false
  | workExit i sys => exact absurd hdue not_false
  | work i sys =>
    obtain ⟨⟨hc, rfl⟩, hend⟩ := hdue
    exact hs.work_due_iff hfilled hstuck hc hend hk
  | close =>
    obtain ⟨⟨u, hu⟩, hpass⟩ := closeStep_of_due hdue
    exact iff_of_true ⟨.ok u, hk, 0, by rw [act, hu]; rfl⟩ hpass

end EasyServer

/-- `Close` returns unless it blocks the thread it waits for, or that thread stays in a `DoMsg`.
Once it is called, in any state that a run of the server comes to, its thread, the one that
accepts, and those of the workers while they are waited for take no more than nine steps for each
worker and five besides, however the run goes on, and when they have taken those that are left
`Close` is over. `Close` never is once it has cleared the flag of a thread that is in front of the
lock of `Exit`, and this is the only way to get stuck there. Until `Close` is over or stuck so, one
of these steps is due, and whatever the kernel reports it comes to its end or is undefined, except
a `DoMsg` of the worker waited for whose loop never ends, because a client has a message with a
header of `0`. -/
theorem server_close_returns (h : Handler) (kind : ServerKind) {s₀ s t : EasyServer}
    {pre tr : List (EasyServer × EasyAct)} (hinit : (easyServer h kind).init s₀)
    (hsize : 0 ≤ s₀.server.nRecvBuffSize ∧ s₀.server.nRecvBuffSize < 2147483648)
    (hpre : (easyServer h kind).Run s₀ pre s) (hcalled : s.close ≠ .idle)
    (hrun : (easyServer h kind).Run s tr t) :
    s.untilClosed ≤ 9 * s.server.cellServers.length + 5 ∧
      (tr.countP fun x => x.1.ofClose x.2) ≤ s.untilClosed ∧
      (s.untilClosed ≤ (tr.countP fun x => x.1.ofClose x.2) → t.close = .closed) ∧
      (¬t.Stuck ↔ ∀ x ∈ pre ++ tr, x.1.ClearsApart x.2) ∧
      (t.Stuck → ∀ tr' u, (easyServer h kind).Run t tr' u → u.close ≠ .closed) ∧
      (t.close ≠ .closed → ¬t.Stuck → (∃ a, t.Due a ∧ t.Kernel a) ∧
        ∀ a, t.Due a → t.Kernel a → t.ofClose a = true ∧
          ((∃ r, (easyServer h kind).step t a r) ↔ t.Passable)) := by
  have hs : s.Sound := hpre.invariant (fun _ _ _ hs hst => hs.step hst) (.init hinit)
  have hresp := hrun.response (W := fun s => s.Sound ∧ s.close ≠ .idle) (D := fun _ => False)
    (m := EasyServer.untilClosed) (p := fun x => x.1.ofClose x.2) (fun _ _ _ hs _ => hs)
    (fun s a t hs hst => Or.inr ⟨⟨hs.1.step hst, (hs.1.untilClosed_step hs.2 hst).1⟩,
      (hs.1.untilClosed_step hs.2 hst).2⟩) ⟨hs, hcalled⟩
  obtain ⟨⟨ht, hidle⟩, hle⟩ := hresp.resolve_left not_false
  have hfilled := EasyTcpServer.Filled.run hinit.1 hsize (easyServer_refines (hpre.append hrun))
  refine ⟨hs.untilClosed_le, by omega, fun hall => ?_, ?_, fun hstuck tr' u hrun' => ?_,
    fun hopen hstuck => ⟨ht.exists_due hidle hopen hstuck, fun a hdue hk =>
      ⟨EasyServer.ofClose_of_due hdue, ht.due_iff hfilled hstuck hdue hk⟩⟩⟩
  · have hzero : t.untilClosed = 0 := by omega
    unfold EasyServer.untilClosed at hzero
    cases hclose : t.close with
    | idle => exact absurd hclose hidle
    | closed => rfl
    | _ =>
      rw [hclose] at hzero
      dsimp only at hzero
      omega
  · have hidle₀ : s₀.close = .idle := hinit.2.2.2.1
    have hnot : ¬s₀.Stuck := EasyServer.not_stuck_of_ne (hidle₀.trans_ne ClosePC.noConfusion)
      (hidle₀.trans_ne ClosePC.noConfusion)
    have hiff := (hpre.append hrun).iff_forall (Q := fun s => ¬s.Stuck)
      (fun _ _ _ hs hst => EasyServer.Sound.step hs hst) (fun _ _ _ hs hst => hs.not_stuck_iff hst)
      (.init hinit)
    exact hiff.trans (and_iff_right hnot)
  · have hstuck' := hrun'.invariant (I := fun s => s.Sound ∧ s.Stuck)
      (fun _ _ _ hs hst => ⟨hs.1.step hst, hs.2.step hs.1 hst⟩) ⟨ht, hstuck⟩
    intro hclose
    rcases hstuck'.2 with ⟨hjoin, -⟩ | ⟨hjoin, -⟩
    · exact absurd (hclose.symm.trans hjoin) ClosePC.noConfusion
    · exact absurd (hclose.symm.trans hjoin) ClosePC.noConfusion

/-- `select` of the thread that accepts fails, and `Close` is called while it is in `Exit`. Where
`Close` is called before, the next step can be taken. -/
theorem server_close_returns_stuck : (∃ pre s,
    (easyServer .ignore .select).Run (.newSelect 1 10) pre s ∧ s.close = .join ∧
      ∀ tr t, (easyServer .ignore .select).Run s tr t → t.close ≠ .closed) ∧
    ∃ pre s, (easyServer .ignore .select).Run (.newSelect 1 10) pre s ∧ s.close = .join ∧
      ∃ a r, s.ofClose a = true ∧ (easyServer .ignore .select).step s a r := by
  let next? := Machine.next? EasyServer.Kernel (EasyServer.act .ignore .select) 0
  have hinit := EasyServer.newSelect_init .ignore 1 10
  constructor
  · let acts : List EasyAct := [.test false, .wait (.fail false), .close]
    have heval : (acts.foldlM next? (.newSelect 1 10)).map (fun s => (s.accept, s.close)) =
        some (.exit, .join) := by
      decide +kernel
    obtain ⟨pre, s, hrun, -, hstate⟩ :=
      Machine.Run.of_next?_map (easyServer .ignore .select).init heval
    obtain ⟨haccept, hclose⟩ := Prod.mk.inj hstate
    have hcalled : s.close ≠ .idle := hclose.trans_ne ClosePC.noConfusion
    obtain ⟨-, -, -, -, hnever, -⟩ :=
      server_close_returns .ignore .select hinit (by decide) hrun hcalled (.nil s)
    exact ⟨pre, s, hrun, hclose, hnever (Or.inl ⟨hclose, haccept⟩)⟩
  · let acts : List EasyAct := [.test false, .close]
    have heval : (acts.foldlM next? (.newSelect 1 10)).map (fun s => (s.accept, s.close)) =
        some (.wait, .join) := by
      decide +kernel
    obtain ⟨pre, s, hrun, -, hstate⟩ :=
      Machine.Run.of_next?_map (easyServer .ignore .select).init heval
    obtain ⟨haccept, hclose⟩ := Prod.mk.inj hstate
    have hcalled : s.close ≠ .idle := hclose.trans_ne ClosePC.noConfusion
    have hstuck : ¬s.Stuck := by
      rintro (⟨-, hexit⟩ | ⟨hjoin, -⟩)
      · exact absurd (haccept.symm.trans hexit) AcceptPC.noConfusion
      · exact absurd (hclose.symm.trans hjoin) ClosePC.noConfusion
    obtain ⟨-, -, -, -, -, hdue⟩ :=
      server_close_returns .ignore .select hinit (by decide) hrun hcalled (.nil s)
    obtain ⟨⟨a, ha, hk⟩, hall⟩ := hdue (hclose.trans_ne ClosePC.noConfusion) hstuck
    obtain ⟨hof, hiff⟩ := hall a ha hk
    obtain ⟨r, hr⟩ := hiff.mpr fun hjoin => absurd (hclose.symm.trans hjoin) ClosePC.noConfusion
    exact ⟨pre, s, hrun, hclose, a, r, hof, hr⟩

namespace EasyServer

variable {s t : EasyServer} {a : EasyAct} {i : ℕ} {srv : CELLServer} {h : Handler}
  {kind : ServerKind}

/-! ## What `Close` leaves -/

/-- The threads of the deleted workers are over. -/
def Joined (s : EasyServer) : Prop :=
  ∀ i < s.deleted, s.server.pcOf i = some .ended

/-- A worker that has stopped by itself is over when `Close` comes to it. -/
def Awaits (s : EasyServer) : EasyAct → Prop
  | .close => s.close = .next → ∀ srv ∈ s.server.cellServers[s.deleted]?,
      srv.isRun = false → srv.pc = .ended
  | _ => True

/-- `Accept` gives no client to a worker whose thread is over. -/
def Gives (s : EasyServer) (a : EasyAct) : Prop :=
  ∀ b ∈ s.tcpAct a, s.server.GivesToAlive b

theorem joined_succ_iff (hi : s.server.cellServers[s.deleted]? = some srv) {u : EasyServer}
    (hserver : u.server = s.server) (hdeleted : u.deleted = s.deleted + 1) :
    u.Joined ↔ s.Joined ∧ srv.pc = .ended := by
  have hpc : s.server.pcOf s.deleted = some srv.pc := by
    rw [EasyTcpServer.pcOf, hi, Option.map_some]
  rw [Joined, Joined, hserver, hdeleted]
  refine ⟨fun hall => ⟨fun i hi => hall i (Nat.lt_succ_of_lt hi), ?_⟩, fun hand i hi => ?_⟩
  · exact Option.some.inj (hpc.symm.trans (hall s.deleted (Nat.lt_succ_self _)))
  · rcases Nat.lt_succ_iff_lt_or_eq.mp hi with hlt | rfl
    · exact hand.1 i hlt
    · rw [hpc, hand.2]

/-- The deleted workers stay as they are. -/
theorem joined_congr {u : EasyServer} (hdeleted : u.deleted = s.deleted)
    (hpc : ∀ i < s.deleted, u.server.pcOf i = s.server.pcOf i) : u.Joined ↔ s.Joined := by
  rw [Joined, Joined, hdeleted]
  exact forall₂_congr fun i hi => by rw [hpc i hi]

theorem Sound.joined_iff (hs : s.Sound) (hstep : (easyServer h kind).step s a (.ok t)) :
    t.Joined ↔ s.Joined ∧ s.Awaits a := by
  have hother : ∀ {b : TcpAct} {u : EasyTcpServer} {pc : AcceptPC} {pc' : ClosePC} {is : List ℕ},
      (tcpServer h kind).step s.server b (.ok u) → (∀ i < s.deleted, b.isWork i = false) →
      (Joined { s with server := u, accept := pc, close := pc', exits := is } ↔ s.Joined) :=
    fun hst hb => joined_congr rfl fun i hi => hs.owned.pcOf_step hst (hb i hi)
  cases stepped hstep with
  | @tested log =>
    have hsame : ∀ server : EasyTcpServer, server.cellServers = s.server.cellServers →
        (Joined { s with server, accept := .wait } ↔ s.Joined) := fun server hservers =>
      joined_congr rfl fun i _ => by rw [EasyTcpServer.pcOf, EasyTcpServer.pcOf, hservers]
    refine (hsame _ ?_).trans (and_iff_left trivial).symm
    cases log <;> rfl
  | ended => exact (and_iff_left trivial).symm
  | waited hpc pc =>
    have hsame : (s.waited pc).Joined ↔ s.Joined := by
      unfold EasyServer.waited
      split <;> rfl
    exact hsame.trans (and_iff_left trivial).symm
  | accepted hpc hst => exact (hother hst fun _ _ => rfl).trans (and_iff_left trivial).symm
  | exited => exact (and_iff_left trivial).symm
  | workExited => exact (and_iff_left trivial).symm
  | worked hi hlock hst =>
    refine (hother hst fun i hlt => ?_).trans (and_iff_left trivial).symm
    rw [TcpAct.isWork, decide_eq_false_iff_not]
    omega
  | called hpc =>
    exact (and_iff_left fun hnext => absurd (hpc.symm.trans hnext) ClosePC.noConfusion).symm
  | joined hpc =>
    exact (and_iff_left fun hnext => absurd (hpc.symm.trans hnext) ClosePC.noConfusion).symm
  | stopped hpc hi hrun hst =>
    refine (hother hst fun _ _ => rfl).trans (and_iff_left fun _ srv' hi' hfalse => ?_).symm
    obtain rfl := Option.some.inj (hi.symm.trans hi')
    exact absurd (hfalse.symm.trans hrun) Bool.false_ne_true
  | @unawaited srv hpc hi hrun =>
    have hsucc : Joined { s with deleted := s.deleted + 1 } ↔ s.Joined ∧ srv.pc = .ended :=
      joined_succ_iff hi rfl rfl
    refine hsucc.trans (and_congr_right fun _ => ⟨fun hend _ srv' hi' _ => ?_, fun hall => ?_⟩)
    · obtain rfl := Option.some.inj (hi.symm.trans hi')
      exact hend
    · exact hall hpc srv hi hrun
  | @awaited srv hpc hi hend =>
    have hsucc : Joined { s with close := .next, deleted := s.deleted + 1 } ↔
        s.Joined ∧ srv.pc = .ended := joined_succ_iff hi rfl rfl
    refine hsucc.trans (and_congr_right fun _ => iff_of_true hend ?_)
    exact fun hnext => absurd (hpc.symm.trans hnext) ClosePC.noConfusion
  | closed hpc hi =>
    refine (and_iff_left fun _ srv' hi' => ?_).symm
    rw [hi] at hi'
    cases hi'

theorem Sound.endedEmpty_iff (hs : s.Sound) (hstep : (easyServer h kind).step s a (.ok t)) :
    t.server.EndedEmpty ↔ s.server.EndedEmpty ∧ s.Gives a := by
  obtain ⟨hsome, hnone⟩ := (stepped hstep).tcp
  rw [Gives]
  cases hb : s.tcpAct a with
  | none =>
    rw [hnone hb]
    exact (and_iff_left fun b hb' => by cases hb').symm
  | some b =>
    rw [hs.owned.endedEmpty_iff (hsome b hb)]
    simp only [Option.mem_some_iff, forall_eq']

end EasyServer

/-! ## A server whose waits do not fail -/

/-- The loop of the worker goes on. -/
def CELLServer.InLoop (srv : CELLServer) : Prop :=
  srv.isRun = true ∧ ¬srv.LoopEnded

/-- A section keeps the loop going, unless `DoNetEvents` fails in it. -/
theorem ServerState.work_inLoop {s t : ServerState} {others : List Ptr} {sys : SysCalls}
    {h : Handler} {n : ℕ} (hran : s.Ran sys others t) (hwork : s.work h n sys = some (.ok t))
    (hserves : s.srv.pc = .doNetEvents → ∀ u, s.doNetEvents sys ≠ .ok (false, u))
    (hloop : s.srv.InLoop) : t.srv.InLoop := by
  obtain ⟨hrun, hpc'⟩ := hloop
  have hround : s.srv.pc = .doNetEvents →
      ∃ v : ServerState, t = v.goto .doMsg ∧ v.srv.isRun = true := by
    intro hpc
    simp only [work, hpc, Option.some.injEq] at hwork
    obtain ⟨⟨ok, v⟩, hv, heq⟩ := Fallible.bind_eq_ok.mp hwork
    cases ok with
    | true => exact ⟨v, (Except.ok.inj heq).symm, (doNetEvents_isRun hv).trans hrun⟩
    | false => exact absurd hv (hserves hpc v)
  cases hran with
  | loop =>
    rw [goto, if_pos hrun]
    exact ⟨hrun, by simp [CELLServer.LoopEnded]⟩
  | handOver hpc =>
    simp only [work, hpc, Option.some.injEq] at hwork
    obtain ⟨v, hv, heq⟩ := Exec.map_eq_ok.mp hwork
    rw [← heq]
    exact ⟨(handOver_isRun hv).trans hrun, by simp [goto, CELLServer.LoopEnded]⟩
  | skip => exact ⟨hrun, by simp [CELLServer.LoopEnded]⟩
  | busy => exact ⟨hrun, by simp [goto, CELLServer.LoopEnded]⟩
  | checkTime hpc =>
    simp only [work, hpc, Option.some.injEq] at hwork
    obtain ⟨v, hv, heq⟩ := Exec.map_eq_ok.mp hwork
    rw [← heq]
    exact ⟨(foldlM_isRun (fun _ _ _ => checkClient_isRun) _ hv).trans hrun,
      by simp [goto, CELLServer.LoopEnded]⟩
  | round hpc =>
    obtain ⟨v, hv, hrun'⟩ := hround hpc
    rw [hv]
    exact ⟨hrun', by simp [goto, CELLServer.LoopEnded]⟩
  | stop hpc =>
    obtain ⟨v, hv, -⟩ := hround hpc
    have hpcs := congrArg (fun s : ServerState => s.srv.pc) hv
    cases hpcs
  | doMsg _ _ hsrv =>
    rw [← hsrv] at hrun
    exact ⟨hrun, by simp [goto, CELLServer.LoopEnded]⟩
  | clearClients hpc => exact absurd (Or.inl hpc) hpc'

namespace EasyTcpServer

variable {s t : EasyTcpServer} {b : TcpAct} {i : ℕ} {srv srv' : CELLServer} {h : Handler}
  {kind : ServerKind}

/-- The loop of a worker goes on, unless it is closed or its wait fails. -/
theorem Owned.inLoop_step (ho : s.Owned) (hstep : (tcpServer h kind).step s b (.ok t))
    (hclose : b ≠ .close i) (hserves : ∀ sys, b = .work i sys → srv.pc = .doNetEvents →
      ∀ u, (s.view srv).doNetEvents sys ≠ .ok (false, u))
    (hi : s.cellServers[i]? = some srv) (hloop : srv.InLoop)
    (hi' : t.cellServers[i]? = some srv') : srv'.InLoop := by
  have hput : ∀ {j srv₁ u}, s.cellServers[j]? = some srv₁ →
      (s.put j u).cellServers[i]? = some srv' → (j = i → srv₁ = srv → u.srv.InLoop) →
      srv'.InLoop := by
    intro j srv₁ u hj hget hu
    rw [getElem?_put hj] at hget
    split at hget
    · rename_i heq
      subst heq
      obtain rfl := Option.some.inj hget
      exact hu rfl (Option.some.inj (hj.symm.trans hi))
    · obtain rfl := Option.some.inj (hi.symm.trans hget)
      exact hloop
  cases b with
  | accept cSock sendMem recvMem =>
    cases ho.stepped hstep with
    | refused =>
      obtain rfl := Option.some.inj (hi.symm.trans hi')
      exact hloop
    | accepted _ _ hmin => exact hput hmin.1 hi' fun _ heq => heq ▸ hloop
  | time4msg =>
    cases ho.stepped hstep with
    | logged =>
      obtain rfl := Option.some.inj (hi.symm.trans hi')
      exact hloop
  | close j =>
    cases ho.stepped hstep with
    | closed hj => exact hput hj hi' fun heq _ => absurd (congrArg TcpAct.close heq) hclose
  | work j sys =>
    obtain ⟨srv₁, u, n, hj, hwork, hran, rfl⟩ := ho.work_step hstep
    refine hput hj hi' fun hji heq => ?_
    subst hji heq
    exact ServerState.work_inLoop hran hwork (hserves sys rfl) hloop

end EasyTcpServer

namespace EasyServer

variable {s t : EasyServer} {a : EasyAct} {i : ℕ} {srv : CELLServer} {h : Handler}
  {kind : ServerKind}

/-- `DoNetEvents` of a worker does not fail. -/
def Serves (s : EasyServer) : EasyAct → Prop
  | .work i sys => ∀ srv ∈ s.server.cellServers[i]?, srv.pc = .doNetEvents →
      ∀ t, (s.server.view srv).doNetEvents sys ≠ .ok (false, t)
  | _ => True

/-- The loops go on of the workers to which `Close` has not come. -/
def Running (s : EasyServer) : Prop :=
  ∀ i srv, s.server.cellServers[i]? = some srv →
    (i < s.deleted ∨ i = s.deleted ∧ s.close = .joinWorker) ∨ srv.InLoop

theorem Running.init (hinit : (easyServer h kind).init s) : s.Running := by
  obtain ⟨⟨-, -, -, -, new, -, hservers⟩, -⟩ := hinit
  intro i srv hi
  have hmem := List.mem_of_getElem? hi
  rw [hservers] at hmem
  obtain ⟨x, -, rfl⟩ := List.mem_map.mp hmem
  exact Or.inr ⟨rfl, by simp [CELLServer.new, CELLServer.LoopEnded]⟩

theorem Running.step (hr : s.Running) (hs : s.Sound) (hserves : s.Serves a)
    (hstep : (easyServer h kind).step s a (.ok t)) : t.Running := by
  -- where nobody is waited for, the workers that are not deleted go on
  have hnext : s.close ≠ .joinWorker → ∀ i srv, s.server.cellServers[i]? = some srv →
      i < s.deleted ∨ srv.InLoop := by
    intro hne i srv hi
    refine (hr i srv hi).imp_left fun hor => hor.resolve_right fun hand => hne hand.2
  have hserver : ∀ {u : EasyTcpServer} {b : TcpAct}, (tcpServer h kind).step s.server b (.ok u) →
      (∀ i sys, b = .work i sys → a = .work i sys) → ∀ {i srv'}, u.cellServers[i]? = some srv' →
      b ≠ .close i →
      (i < s.deleted ∨ i = s.deleted ∧ s.close = .joinWorker) ∨ srv'.InLoop := by
    intro u b hst hwork i srv' hi' hclose
    obtain ⟨hlt, -⟩ := List.getElem?_eq_some_iff.mp hi'
    rw [hs.owned.length_step hst] at hlt
    have hi := List.getElem?_eq_getElem hlt
    refine (hr i _ hi).imp_right fun hloop => ?_
    refine hs.owned.inLoop_step hst hclose (fun sys hb => ?_) hi hloop hi'
    have hact := hwork i sys hb
    subst hact
    exact hserves _ hi
  cases stepped hstep with
  | @tested log =>
    intro i srv hi
    refine hr i srv ?_
    cases log <;> exact hi
  | ended => exact hr
  | waited hpc pc =>
    unfold EasyServer.waited
    split <;> exact hr
  | accepted hpc hst =>
    intro i srv hi
    exact hserver hst (fun _ _ => TcpAct.noConfusion) hi TcpAct.noConfusion
  | exited => exact hr
  | workExited => exact hr
  | worked _ _ hst =>
    refine fun i srv hi => hserver hst (fun j sys hb => ?_) hi TcpAct.noConfusion
    obtain ⟨rfl, rfl⟩ := TcpAct.work.inj hb
    rfl
  | called hpc =>
    have hne : s.close ≠ .joinWorker := hpc.trans_ne ClosePC.noConfusion
    exact fun i srv hi => (hnext hne i srv hi).imp_left Or.inl
  | joined hpc =>
    have hne : s.close ≠ .joinWorker := hpc.trans_ne ClosePC.noConfusion
    exact fun i srv hi => (hnext hne i srv hi).imp_left Or.inl
  | stopped hpc hi hrun hst =>
    intro i srv' hi'
    by_cases heq : i = s.deleted
    · exact Or.inl (Or.inr ⟨heq, rfl⟩)
    · refine (hserver hst (fun _ _ => TcpAct.noConfusion) hi' fun hb =>
        heq (TcpAct.close.inj hb).symm).imp_left fun hor => Or.inl ?_
      exact hor.resolve_right fun hand => heq hand.1
  | unawaited hpc hi hrun =>
    have hne : s.close ≠ .joinWorker := hpc.trans_ne ClosePC.noConfusion
    exact fun i srv hi => (hnext hne i srv hi).imp_left fun hlt => Or.inl (Nat.lt_succ_of_lt hlt)
  | awaited hpc hi hend =>
    intro i srv hi
    refine (hr i srv hi).imp_left fun hor => Or.inl ?_
    rcases hor with hlt | ⟨rfl, -⟩
    · exact Nat.lt_succ_of_lt hlt
    · exact Nat.lt_succ_self _
  | closed hpc hi =>
    have hne : s.close ≠ .joinWorker := hpc.trans_ne ClosePC.noConfusion
    exact fun i srv hi => (hnext hne i srv hi).imp_left Or.inl

/-- Then no worker stops by itself, and `Accept` finds them all alive. -/
theorem Running.quiet (hr : s.Running) (hs : s.Sound)
    (hstep : (easyServer h kind).step s a (.ok t)) : s.Awaits a ∧ s.Gives a := by
  refine ⟨?_, fun b hb => ?_⟩
  · cases a with
    | close =>
      intro hpc srv hi hfalse
      rcases hr s.deleted srv hi with hor | ⟨htrue, -⟩
      · rcases hor with hlt | ⟨-, hjoin⟩
        · exact absurd hlt (Nat.lt_irrefl _)
        · exact absurd (hpc.symm.trans hjoin) ClosePC.noConfusion
      · exact absurd (hfalse.symm.trans htrue) Bool.false_ne_true
    | _ => trivial
  · cases stepped hstep with
    | accepted hpc =>
      obtain rfl := Option.some.inj hb
      have hne : s.accept ≠ .ended := hpc.trans_ne AcceptPC.noConfusion
      obtain ⟨hzero, hclose⟩ := hs.running hne
      intro _ _ i srv hmin hend
      rcases hr i srv hmin.1 with hor | ⟨-, hloop⟩
      · rw [hzero] at hor
        rcases hor with hlt | ⟨-, hjoin⟩
        · exact absurd hlt (Nat.not_lt_zero i)
        · rcases hclose with ⟨hclose, -⟩ | ⟨hclose, -⟩
          · exact absurd (hclose.symm.trans hjoin) ClosePC.noConfusion
          · exact absurd (hclose.symm.trans hjoin) ClosePC.noConfusion
      · exact hloop (Or.inr hend)
    | worked =>
      obtain rfl := Option.some.inj hb
      trivial
    | _ =>
      simp only [tcpAct] at hb
      first
      | cases hb
      | split at hb
        · obtain rfl := Option.some.inj hb
          trivial
        · cases hb

/-- When `Close` is over, all workers are deleted. -/
theorem Sound.joined_iff_ended (hs : s.Sound) (hclosed : s.close = .closed) :
    s.Joined ↔ ∀ srv ∈ s.server.cellServers, srv.pc = .ended := by
  have hphase := hs.phase
  rw [hclosed] at hphase
  rw [Joined, hphase.2, List.forall_mem_iff_forall_getElem]
  refine forall₂_congr fun i hi => ?_
  rw [EasyTcpServer.pcOf, List.getElem?_eq_getElem hi, Option.map_some, Option.some_inj]

end EasyServer

/-- When `Close` leaves nothing behind. In a run in which it has returned, the callbacks of all
workers are over and every client is deleted, exactly when those of each worker that had stopped by
itself were over when `Close` came to it, and no client was given to a worker after that. That holds
if `DoNetEvents` did not fail. -/
theorem server_close_clean_iff (h : Handler) (kind : ServerKind) {s₀ s : EasyServer}
    {tr : List (EasyServer × EasyAct)} (hinit : (easyServer h kind).init s₀)
    (hrun : (easyServer h kind).Run s₀ tr s) (hclosed : s.close = .closed) :
    ((∀ srv ∈ s.server.cellServers, srv.pc = .ended) ∧ (∀ p, s.server.heap.get? p = none) ↔
      ∀ x ∈ tr, x.1.Awaits x.2 ∧ x.1.Gives x.2) ∧
    ((∀ x ∈ tr, x.1.Serves x.2) → (∀ srv ∈ s.server.cellServers, srv.pc = .ended) ∧
      ∀ p, s.server.heap.get? p = none) := by
  have hs : s.Sound := hrun.invariant (fun _ _ _ hs hst => hs.step hst) (.init hinit)
  have hs₀ : s₀.Joined ∧ s₀.server.EndedEmpty := by
    refine ⟨fun i hi => ?_, EasyTcpServer.endedEmpty_init hinit.1⟩
    rw [hinit.2.2.2.2.1] at hi
    exact absurd hi (Nat.not_lt_zero i)
  have hclean : (∀ srv ∈ s.server.cellServers, srv.pc = .ended) ∧
      (∀ p, s.server.heap.get? p = none) ↔ s.Joined ∧ s.server.EndedEmpty := by
    rw [hs.joined_iff_ended hclosed]
    exact and_congr_right fun hended => hs.owned.no_clients_iff hended
  have hiff := hrun.iff_forall (Q := fun s => s.Joined ∧ s.server.EndedEmpty)
    (fun _ _ _ hs hst => EasyServer.Sound.step hs hst) (fun _ _ _ hs hst => by
      rw [hs.joined_iff hst, hs.endedEmpty_iff hst]
      exact and_and_and_comm) (.init hinit)
  have hmain := (hclean.trans hiff).trans (and_iff_right hs₀)
  refine ⟨hmain, fun hserves => hmain.mpr ?_⟩
  exact hrun.forall_of_steps (I := fun s => s.Sound ∧ s.Running)
    (fun _ _ _ hs hserves hst => ⟨hs.1.step hst, hs.2.step hs.1 hserves hst⟩)
    (fun _ _ _ hs _ hst => hs.2.quiet hs.1 hst) hserves ⟨.init hinit, .init hinit⟩

/-- The only worker stops because `select` fails, and `Close` comes before `ClearClients`. -/
theorem server_close_clean_iff_early : ∃ tr s,
    (easyServer .ignore .select).Run (.newSelect 1 10) tr s ∧ s.close = .closed ∧
      ¬∀ x ∈ tr, x.1.Awaits x.2 ∧ x.1.Gives x.2 := by
  let sys : SysCalls := ⟨0, fun _ => true, .fail false, .fail false, fun _ => .fail,
    fun _ => .accept 0⟩
  let client : List EasyAct := [.test false, .wait (.ready true), .accept 4 (fun _ => 0) fun _ => 0]
  let acts : List EasyAct := client ++ List.replicate 5 (.work 0 sys) ++
    [.close, .test false] ++ List.replicate 3 .close
  let next? := Machine.next? EasyServer.Kernel (EasyServer.act .ignore .select) 0
  have heval : (acts.foldlM next? (.newSelect 1 10)).map (fun s =>
      (s.close, (s.server.heap.get? 0).isSome)) = some (.closed, true) := by
    decide +kernel
  obtain ⟨tr, s, hrun, -, hstate⟩ :=
    Machine.Run.of_next?_map (easyServer .ignore .select).init heval
  obtain ⟨hclose, hsome⟩ := Prod.mk.inj hstate
  refine ⟨tr, s, hrun, hclose, fun hall => ?_⟩
  obtain ⟨hiff, -⟩ := server_close_clean_iff .ignore .select (EasyServer.newSelect_init _ _ _) hrun
    hclose
  rw [(hiff.mpr hall).2 0] at hsome
  cases hsome

end CellNet
