import CellNet.Client
import CellNet.NetEvent
import CellNet.Poll
import CellNet.SortedMap

/-!
# The worker servers

`CELLServer` and its two subclasses `CELLSelectServer` and `CELLEpollServer`. A server
owns clients on the heap : new ones wait in `clientsBuff` until its thread moves them
into the map `clients`. Its thread runs `OnRun`, and behind it `ClearClients`, one
section after the other : `pc` is the section it comes to next, and `work` runs that
section.

`SysCalls` is what the system calls of a section return. A client is used through its
pointer (`call`, `event`, `deleteClient`), so a use of a deleted client shows. The event
functions are handed the client, so calling one is a use of it, whatever it does. Their
calls are recorded in `events`.
-/

namespace CellNet

/-! ## The members -/

/-- The members of a `CELLSelectServer`. -/
structure CELLSelectServer where
  fdRead : CELLFDSet
  fdWrite : CELLFDSet
  fdReadBak : CELLFDSet
  maxSock : SOCKET
  deriving DecidableEq, Repr

/-- The members of a `CELLEpollServer`. -/
structure CELLEpollServer where
  ep : CELLEpoll
  deriving DecidableEq, Repr

/-- The subclass of a server. -/
inductive Derived
  | select (d : CELLSelectServer)
  | epoll (d : CELLEpollServer)
  deriving DecidableEq, Repr

/-- The subclasses. -/
inductive ServerKind
  | select
  | epoll
  deriving DecidableEq, Repr

/-- The members of a new object of the subclass. `_maxSock` has no initial value. -/
def Derived.IsNew : ServerKind → Derived → Prop
  | .select, .select d => d.fdRead = .zero ∧ d.fdWrite = .zero ∧ d.fdReadBak = .zero
  | .epoll, .epoll d => d.ep = .new
  | _, _ => False

/-- Where the thread of a server is. -/
inductive PC
  /-- `while (pThread->isRun())`. -/
  | loop
  /-- `if (!_clientsBuff.empty())`. -/
  | handOver
  /-- `if (_clients.empty())`. -/
  | testEmpty
  /-- `CheckTime()`. -/
  | checkTime
  /-- `if (!DoNetEvents())`. -/
  | doNetEvents
  /-- `DoMsg()`. -/
  | doMsg
  /-- `ClearClients()`, behind `OnRun`. -/
  | clearClients
  /-- The thread is over. -/
  | ended
  deriving DecidableEq, Repr

/-- A `CELLServer`. -/
structure CELLServer where
  id : ℤ
  clients : SortedMap SOCKET Ptr
  clientsBuff : List Ptr
  oldTime : ℤ
  /-- `_clients_change`. -/
  clientsChange : Bool
  derived : Derived
  /-- `_thread.isRun()`. -/
  isRun : Bool
  pc : PC

namespace CELLServer

/-- A started server. -/
def new (id oldTime : ℤ) (derived : Derived) : CELLServer where
  id := id
  clients := .empty
  clientsBuff := []
  oldTime := oldTime
  clientsChange := true
  derived := derived
  isRun := true
  pc := .loop

/-- `getClientCount`. -/
def getClientCount (srv : CELLServer) : ℕ :=
  srv.clients.size + srv.clientsBuff.length

/-- `addClient`. -/
def addClient (srv : CELLServer) (p : Ptr) : CELLServer :=
  { srv with clientsBuff := srv.clientsBuff ++ [p] }

/-- The clients a server owns. -/
def held (srv : CELLServer) : List Ptr :=
  srv.clients.values ++ srv.clientsBuff

/-- The descriptors registered for a server. -/
def registered (srv : CELLServer) : List (SOCKET × EpollEntry) :=
  match srv.derived with
  | .select _ => []
  | .epoll d => d.ep.registered

/-- The subclass of a server. -/
def kind (srv : CELLServer) : ServerKind :=
  match srv.derived with
  | .select _ => .select
  | .epoll _ => .epoll

/-- The server once the descriptor `fd` is closed. -/
def closed (srv : CELLServer) (fd : SOCKET) : CELLServer :=
  match srv.derived with
  | .select _ => srv
  | .epoll d => { srv with derived := .epoll ⟨d.ep.close fd⟩ }

end CELLServer

/-- What the system calls of one section return. -/
structure SysCalls where
  /-- The clock. -/
  now : ℤ
  /-- Whether `epoll_ctl` succeeds for a client. -/
  ctl : Ptr → Bool
  select : SelectResult
  wait : EpollResult
  recv : Ptr → RecvResult
  send : Ptr → SendResult

/-- A server with what it shares : the heap and the event object, with its counters and
the calls of its event functions. -/
structure ServerState where
  heap : Heap CELLClient
  counts : NetCounts
  events : List NetEvent
  srv : CELLServer

namespace ServerState

/-! ## The use of a client -/

/-- `pClient->f()`. -/
def call {β : Type} (s : ServerState) (p : Ptr) (f : CELLClient → Exec (β × CELLClient)) :
    Exec (β × ServerState) := do
  let (b, heap) ← s.heap.call p f
  return (b, { s with heap })

/-- `pClient->sockfd()`. -/
def sockfd (s : ServerState) (p : Ptr) : Exec SOCKET := do
  let c ← s.heap.deref p
  return c.sockfd

/-- A call of an event function of `_pNetEvent`. -/
def event (s : ServerState) (e : NetEvent) : Exec ServerState := do
  let _ ← s.heap.deref e.pClient
  return { s with counts := e.counted s.counts, events := s.events ++ [e] }

/-- `delete pClient`. The destructor closes the descriptor. -/
def deleteClient (s : ServerState) (p : Ptr) : Exec ServerState := do
  let heap ← s.heap.delete p
  let srv := match s.heap.get? p with
    | some c => s.srv.closed c.sockfd
    | none => s.srv
  return { s with heap, srv }

/-- `_clients.erase(k)`. -/
def erase (s : ServerState) (k : SOCKET) : ServerState :=
  { s with srv := { s.srv with clients := s.srv.clients.erase k } }

/-- The server with `_clients_change` set. -/
def setChange (s : ServerState) : ServerState :=
  { s with srv := { s.srv with clientsChange := true } }

/-- The server with the members `derived` of its subclass. -/
def setDerived (s : ServerState) (derived : Derived) : ServerState :=
  { s with srv := { s.srv with derived } }

/-- The server with its thread at `pc`. -/
def goto (s : ServerState) (pc : PC) : ServerState :=
  { s with srv := { s.srv with pc } }

/-- `OnClientLeave`. -/
def onClientLeave (s : ServerState) (p : Ptr) : Exec ServerState := do
  let s ← s.event (.onNetLeave p)
  s.setChange.deleteClient p

/-- `RecvData`. -/
def recvData (s : ServerState) (p : Ptr) (r : RecvResult) : Exec (ℤ × ServerState) := do
  let c ← s.heap.deref p
  let (nLen, s) ← s.call p fun c => c.recvData r
  let s ← s.event (.onNetRecv p (r.data c.recvBuff.free))
  return (nLen, s)

/-- `pClient->SendDataReal()`. -/
def sendDataReal (s : ServerState) (p : Ptr) (r : SendResult) : Exec (ℤ × ServerState) :=
  s.call p fun c => do
    let (ret, _, c) ← c.sendDataReal r
    return (ret, c)

/-! ## Hand-over and heartbeat -/

/-- `OnClientJoin`. -/
def onClientJoin (s : ServerState) (p : Ptr) (ok : Bool) : Exec ServerState :=
  match s.srv.derived with
  | .select _ => return s
  | .epoll d => do
    let fd ← s.sockfd p
    return s.setDerived (.epoll ⟨d.ep.ctl .add p fd false ok⟩)

/-- The hand-over of one client. -/
def joinClient (sys : SysCalls) (s : ServerState) (p : Ptr) : Exec ServerState := do
  let fd ← s.sockfd p
  let s := { s with srv := { s.srv with clients := s.srv.clients.set fd p } }
  let (_, s) ← s.call p fun c => .ok ((), { c with serverId := s.srv.id })
  let s ← s.event (.onNetJoin p)
  s.onClientJoin p (sys.ctl p)

/-- The hand-over section of `OnRun`. -/
def handOver (s : ServerState) (sys : SysCalls) : Exec ServerState :=
  if s.srv.clientsBuff.isEmpty then return s
  else do
    let s ← s.srv.clientsBuff.foldlM (joinClient sys) s
    return { s with srv := { s.srv with clientsBuff := [], clientsChange := true } }

/-- `CheckTime` for one client. -/
def checkClient (dt : ℤ) (s : ServerState) (e : SOCKET × Ptr) : Exec ServerState := do
  let (dead, s) ← s.call e.2 fun c => .ok (c.checkHeart dt)
  if dead then
    let s ← s.onClientLeave e.2
    return s.erase e.1
  else
    return s

/-- `CheckTime`. -/
def checkTime (s : ServerState) (nowTime : ℤ) : Exec ServerState :=
  let dt := nowTime - s.srv.oldTime
  let s := { s with srv := { s.srv with oldTime := nowTime } }
  s.srv.clients.entries.foldlM (checkClient dt) s

/-! ## CELLSelectServer -/

/-- One client in the loop that builds `_fdRead` and `_maxSock`. -/
def addRead (s : ServerState) (acc : CELLFDSet × SOCKET) (e : SOCKET × Ptr) :
    Exec (CELLFDSet × SOCKET) := do
  let fd ← s.sockfd e.2
  let fdRead ← acc.1.add fd
  return (fdRead, if acc.2 < fd then fd else acc.2)

/-- The read set, built anew if `_clients_change` is set. -/
def readSet (s : ServerState) (d : CELLSelectServer) : Exec (ServerState × CELLSelectServer) :=
  if s.srv.clientsChange then do
    let s := { s with srv := { s.srv with clientsChange := false } }
    match s.srv.clients.entries with
    | [] => .error .derefEnd
    | (_, p) :: _ => do
      let maxSock ← s.sockfd p
      let (fdRead, maxSock) ← s.srv.clients.entries.foldlM s.addRead (.zero, maxSock)
      return (s, { d with fdRead, maxSock, fdReadBak := fdRead })
  else
    return (s, { d with fdRead := d.fdReadBak })

/-- One client in the loop that builds `_fdWrite`. -/
def addWrite (s : ServerState) (acc : Bool × CELLFDSet) (e : SOCKET × Ptr) :
    Exec (Bool × CELLFDSet) := do
  let c ← s.heap.deref e.2
  if c.needWrite then
    let fdWrite ← acc.2.add c.sockfd
    return (true, fdWrite)
  else
    return acc

/-- `ReadData` for one client. -/
def readClient (sys : SysCalls) (fdRead : CELLFDSet) (s : ServerState) (e : SOCKET × Ptr) :
    Exec ServerState := do
  let fd ← s.sockfd e.2
  if ← fdRead.has fd then
    let (nLen, s) ← s.recvData e.2 (sys.recv e.2)
    if SOCKET_ERROR = nLen then
      let s ← s.onClientLeave e.2
      return s.erase e.1
    else
      return s
  else
    return s

/-- `ReadData`. -/
def readData (s : ServerState) (sys : SysCalls) (fdRead : CELLFDSet) : Exec ServerState :=
  s.srv.clients.entries.foldlM (readClient sys fdRead) s

/-- `WriteData` for one client. -/
def writeClient (sys : SysCalls) (fdWrite : CELLFDSet) (s : ServerState) (e : SOCKET × Ptr) :
    Exec ServerState := do
  let c ← s.heap.deref e.2
  if c.needWrite then
    if ← fdWrite.has c.sockfd then
      let (ret, s) ← s.sendDataReal e.2 (sys.send e.2)
      if SOCKET_ERROR = ret then
        let s ← s.onClientLeave e.2
        return s.erase e.1
      else
        return s
    else
      return s
  else
    return s

/-- `WriteData`. -/
def writeData (s : ServerState) (sys : SysCalls) (fdWrite : CELLFDSet) : Exec ServerState :=
  s.srv.clients.entries.foldlM (writeClient sys fdWrite) s

/-- `CELLSelectServer::DoNetEvents`. -/
def selectNetEvents (s : ServerState) (sys : SysCalls) (d : CELLSelectServer) :
    Exec (Bool × ServerState) := do
  let (s, d) ← s.readSet d
  let (bNeedWrite, fdWrite) ← s.srv.clients.entries.foldlM s.addWrite (false, .zero)
  let (ret, fdRead, fdWrite) ← select (d.maxSock + 1) d.fdRead fdWrite bNeedWrite sys.select
  let s := s.setDerived (.select { d with fdRead, fdWrite })
  if ret < 0 then
    return (sys.select.eintr, s)
  else if ret = 0 then
    return (true, s)
  else
    let s ← s.readData sys fdRead
    let s ← s.writeData sys fdWrite
    return (true, s)

/-! ## CELLEpollServer -/

/-- `rmClient`. -/
def rmClient (s : ServerState) (p : Ptr) : Exec ServerState := do
  let fd ← s.sockfd p
  let s := match s.srv.clients.find fd with
    | some e => s.erase e.1
    | none => s
  s.onClientLeave p

/-- One client in the loop that polls for writing where that is needed. -/
def modClient (sys : SysCalls) (s : ServerState) (ep : CELLEpoll) (e : SOCKET × Ptr) :
    Exec CELLEpoll := do
  let c ← s.heap.deref e.2
  return ep.ctl .mod e.2 c.sockfd c.needWrite (sys.ctl e.2)

/-- The `EPOLLOUT` part of an event. -/
def onWritable (sys : SysCalls) (s : ServerState) (ev : EpollEvent) (p : Ptr) :
    Exec ServerState :=
  if ev.epollout then do
    let (ret, s) ← s.sendDataReal p (sys.send p)
    if SOCKET_ERROR = ret then s.rmClient p else return s
  else
    return s

/-- One event. -/
def onEvent (sys : SysCalls) (s : ServerState) (ev : EpollEvent) : Exec ServerState :=
  match ev.ptr with
  | none => return s
  | some p =>
    if ev.epollin then do
      let (nLen, s) ← s.recvData p (sys.recv p)
      if SOCKET_ERROR = nLen then s.rmClient p else onWritable sys s ev p
    else
      onWritable sys s ev p

/-- `CELLEpollServer::DoNetEvents`. -/
def epollNetEvents (s : ServerState) (sys : SysCalls) (d : CELLEpollServer) :
    Exec (Bool × ServerState) := do
  let ep ← s.srv.clients.entries.foldlM (modClient sys s) d.ep
  let s := s.setDerived (.epoll ⟨ep⟩)
  let (ret, evs) := sys.wait.wait
  if ret < 0 then
    return (false, s)
  else
    let s ← evs.foldlM (onEvent sys) s
    return (true, s)

/-- `DoNetEvents`. -/
def doNetEvents (s : ServerState) (sys : SysCalls) : Exec (Bool × ServerState) :=
  match s.srv.derived with
  | .select d => s.selectNetEvents sys d
  | .epoll d => s.epollNetEvents sys d

/-! ## DoMsg and the end -/

/-- `OnNetMsg`. -/
def onNetMsg (h : Handler) (p : Ptr) (s : ServerState) (header : List UInt8) :
    Exec ServerState := do
  let s ← s.event (.onNetMsg p (header.take (headerLen header)))
  let (_, s) ← s.call p fun c => .ok ((), h.onNetMsg c header)
  return s

/-- `pClient->pop_front_msg()`. -/
def popFrontMsg (p : Ptr) (s : ServerState) : Exec ServerState := do
  let (_, s) ← s.call p fun c => do
    let c ← c.popFrontMsg
    return ((), c)
  return s

/-- The loop of `DoMsg` for one client. -/
def drain (h : Handler) (p : Ptr) : Loop ServerState UB :=
  drainLoop (fun s => s.heap.deref p) (onNetMsg h p) (popFrontMsg p)

/-- `DoMsg` for the entries left, each loop ended after at most `n` tests. -/
def doMsgFrom (h : Handler) (n : ℕ) : List (SOCKET × Ptr) → ServerState →
    Option (Exec ServerState)
  | [], s => some (.ok s)
  | e :: es, s =>
    match (drain h e.2).run n s with
    | some (.ok s) => doMsgFrom h n es s
    | r => r

/-- `DoMsg`. -/
def doMsg (h : Handler) (n : ℕ) (s : ServerState) : Option (Exec ServerState) :=
  doMsgFrom h n s.srv.clients.entries s

/-- `ClearClients`. It takes no lock : a client that `addClient` appends behind the second loop
and before `clear()` would be lost. Here no step of another thread comes in between. -/
def clearClients (s : ServerState) : Exec ServerState := do
  let s ← s.srv.clients.values.foldlM deleteClient s
  let s := { s with srv := { s.srv with clients := .empty } }
  let s ← s.srv.clientsBuff.foldlM deleteClient s
  return { s with srv := { s.srv with clientsBuff := [] } }

/-- The next section of the thread. -/
def work (h : Handler) (n : ℕ) (s : ServerState) (sys : SysCalls) : Option (Exec ServerState) :=
  match s.srv.pc with
  | .loop => some (.ok (s.goto (if s.srv.isRun then .handOver else .clearClients)))
  | .handOver => some ((goto · .testEmpty) <$> s.handOver sys)
  | .testEmpty =>
    if s.srv.clients.entries.isEmpty then
      some (.ok { s with srv := { s.srv with oldTime := sys.now, pc := .loop } })
    else
      some (.ok (s.goto .checkTime))
  | .checkTime => some ((goto · .doNetEvents) <$> s.checkTime sys.now)
  | .doNetEvents => some do
    let (ok, s) ← s.doNetEvents sys
    if ok then
      return s.goto .doMsg
    else
      return { s with srv := { s.srv with isRun := false, pc := .clearClients } }
  | .doMsg => (s.doMsg h n).map ((goto · .loop) <$> ·)
  | .clearClients => some do
    let s ← s.clearClients
    return { s with srv := { s.srv with isRun := false, pc := .ended } }
  | .ended => none

end ServerState

end CellNet
