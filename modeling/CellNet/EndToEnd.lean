import CellNet.NetEvent
import CellNet.Pipeline
import CellNet.TcpClient

/-!
# Message ids end to end

One connection between a `MyClient` and a `MyServer` : `Connection` has the client, the
server, the server's object for the client, and the bytes on the way in both
directions. `connection` is the machine in which either side sends what it likes of its
buffer, receives what it likes of what has arrived, and dispatches a message, in any
order.

The messages of each direction are numbered frames in transit (`InTransit`) : the ids
from the one the receiver expects to the one the sender gives next are in its receive
buffer, on the way, or in the sender's buffer (`Linked`). A refused `SendData` adds no
frame and takes no number, so every step keeps this, and a dispatched message has the
expected id.
-/

namespace CellNet

/-! ## The two programs and the channel -/

/-- A client, a server and the channel between them. -/
structure Connection where
  client : EasyTcpClient MyClient
  server : MyServer
  /-- The server's object for the client. -/
  pClient : CELLClient
  /-- The bytes on the way to the server. -/
  up : List UInt8
  /-- The bytes on the way to the client. -/
  down : List UInt8

/-- The calls on the two sides. -/
inductive ConnectionAct
  | sendTest (login : NetmsgLogin)
  | checkSend (dt : ℤ)
  | clientSendDataReal (r : SendResult)
  /-- `_pClient->RecvData()` with `n` bytes waiting in the socket. -/
  | clientRecvData (n : ℕ)
  /-- One pass of the loop of `EasyTcpClient::RecvData`. -/
  | clientDispatch
  | serverSendDataReal (r : SendResult)
  /-- `pClient->RecvData()` with `n` bytes waiting in the socket. -/
  | serverRecvData (n : ℕ)
  /-- One pass of the loop of `CELLServer::DoMsg`. -/
  | serverDispatch (mem : ℕ → UInt8)

/-- The loop of `DoMsg` for one client of a `MyServer`. -/
def MyServer.drain (mem : ℕ → UInt8) : Loop (MyServer × CELLClient) UB :=
  drainLoop (fun s => .ok s.2) (fun s header => s.1.onNetMsg s.2 header mem)
    fun s => do
      let c ← s.2.popFrontMsg
      return (s.1, c)

namespace Connection

/-- A new connection, its buffers of the sizes `cs` and `cr` at the client and `ss` and
`sr` at the server. Both sides check ids, and the server sends back. -/
def new (fd fd' : SOCKET) (cs cr ss sr : ℤ) (mem : ℕ → ℕ → UInt8) (counts : NetCounts)
    (bSendFull : Bool) : Connection where
  client := ⟨some (.new fd cs cr (mem 0) (mem 1)), true, .new true⟩
  server := ⟨counts, true, bSendFull, true, []⟩
  pClient := .new fd' ss sr (mem 2) (mem 3)
  up := []
  down := []

/-- The connection after its client did something. -/
def setClient (s : Connection) (client : EasyTcpClient MyClient) : Connection :=
  { s with client }

/-- The connection after a `SendTest`. -/
def afterSendTest (s : Connection) (x : ℤ × EasyTcpClient MyClient) : Connection :=
  s.setClient x.2

/-- The connection after a `SendDataReal` of the client. -/
def afterClientSend (s : Connection) (x : ℤ × List UInt8 × EasyTcpClient MyClient) :
    Connection :=
  { s with client := x.2.2, up := s.up ++ x.2.1 }

/-- The connection after a `RecvData` of the client. -/
def afterClientRecv (s : Connection) (x : ℤ × EasyTcpClient MyClient) : Connection :=
  { s with client := x.2, down := s.down.drop x.1.toNat }

/-- The connection after a `SendDataReal` of the server. -/
def afterServerSend (s : Connection) (x : ℤ × List UInt8 × CELLClient) : Connection :=
  { s with pClient := x.2.2, down := s.down ++ x.2.1 }

/-- The connection after a `RecvData` of the server. -/
def afterServerRecv (s : Connection) (x : ℤ × CELLClient) : Connection :=
  { s with pClient := x.2, up := s.up.drop x.1.toNat }

/-- The connection after the server handled a message. -/
def afterServerMsg (s : Connection) (x : MyServer × CELLClient) : Connection :=
  { s with server := x.1, pClient := x.2 }

/-- The outcome of a call. -/
def step (nMsg nSendSleep : ℤ) (s : Connection) : ConnectionAct → Exec Connection
  | .sendTest login => s.afterSendTest <$> MyClient.sendTest s.client login
  | .checkSend dt => .ok (s.setClient
      { s.client with derived := (MyClient.checkSend nMsg nSendSleep s.client.derived dt).2 })
  | .clientSendDataReal r => s.afterClientSend <$> s.client.sendDataReal r
  | .clientRecvData n => s.afterClientRecv <$> s.client.clientRecvData (.avail (s.down.take n))
  | .clientDispatch => (fun o => s.setClient (o.getD s.client)) <$>
      (EasyTcpClient.drain MyClient.onNetMsg).body s.client
  | .serverSendDataReal r => s.afterServerSend <$> s.pClient.sendDataReal r
  | .serverRecvData n => s.afterServerRecv <$> s.pClient.recvData (.avail (s.up.take n))
  | .serverDispatch mem => (fun o => s.afterServerMsg (o.getD (s.server, s.pClient))) <$>
      (MyServer.drain mem).body (s.server, s.pClient)

end Connection

/-- Any calls, in any order, from a new connection. -/
def connection (nMsg nSendSleep : ℤ) : Machine Connection ConnectionAct UB where
  init s := ∃ fd fd' cs cr ss sr mem counts bSendFull,
    (∀ n ∈ [cs, cr, ss, sr], 100 ≤ n ∧ n < 2147483648) ∧
    s = .new fd fd' cs cr ss sr mem counts bSendFull
  step s a out := out = s.step nMsg nSendSleep a

/-! ## What the handlers do -/

/-- The id behind `i`. -/
def nextMsgID (i : ℤ) : ℤ :=
  int32 (i + 1)

/-- `f` is a `netmsg_Login` with the id `i`. -/
def IsLogin (i : ℤ) (f : List UInt8) : Prop :=
  int32 i = i ∧ ∃ m : NetmsgLogin, m.msgID = i ∧ f = m.bytes

/-- `f` is a `netmsg_LoginR` with the id `i`. -/
def IsLoginR (i : ℤ) (f : List UInt8) : Prop :=
  int32 i = i ∧ ∃ m : NetmsgLoginR, m.msgID = i ∧ f = m.bytes

theorem IsLogin.isFrame (i : ℤ) (f : List UInt8) (h : IsLogin i f) : netmsgFraming.IsFrame f := by
  obtain ⟨-, m, -, rfl⟩ := h
  exact m.header_bytes.2.1

theorem IsLoginR.isFrame (i : ℤ) (f : List UInt8) (h : IsLoginR i f) :
    netmsgFraming.IsFrame f := by
  obtain ⟨-, m, -, rfl⟩ := h
  exact m.header_bytes.2.1

theorem int32_nextMsgID (i : ℤ) : int32 (nextMsgID i) = nextMsgID i :=
  int32_congr (int32_emod _)

/-- No line of the log reports an unexpected id. -/
def NoMismatch (log : List LogCall) : Prop :=
  ∀ l ∈ log, ¬l.IsMismatch

/-- An answer is queued under the next id, or not at all. -/
theorem MyServer.sendBack_of_ok {s s' : MyServer} {c c' : CELLClient} {mem : ℕ → UInt8}
    (h : s.sendBack c mem = .ok (s', c')) (hback : s.bSendBack = true) (hwf : c.sendBuff.WF)
    (hquiet : NoMismatch s.log) :
    s'.bSendBack = true ∧ s'.bCheckMsgID = s.bCheckMsgID ∧ NoMismatch s'.log ∧ c'.sendBuff.WF ∧
    c'.recvBuff = c.recvBuff ∧ c'.nRecvMsgID = c.nRecvMsgID ∧
    ((c'.nSendMsgID = c.nSendMsgID ∧ c'.sendBuff.bytes = c.sendBuff.bytes) ∨
      (c'.nSendMsgID = nextMsgID c.nSendMsgID ∧ ∃ m : NetmsgLoginR, m.msgID = c.nSendMsgID ∧
        c'.sendBuff.bytes = c.sendBuff.bytes ++ m.bytes)) := by
  rw [MyServer.sendBack, if_pos hback] at h
  generalize hm : NetmsgLoginR.mk 0 (Vector.ofFn fun i => mem i) c.nSendMsgID = m at h
  have hid : m.msgID = c.nSendMsgID := by rw [← hm]
  rw [Fallible.bind_eq_ok] at h
  obtain ⟨⟨sent, d⟩, hsend, h⟩ := h
  have hlen := m.length_bytes
  obtain ⟨b, rfl, hb, hcases⟩ :=
    CELLClient.sendDataHeader_of_ok hwf (by omega) m.header_bytes.1 hsend
  rcases hcases with ⟨rfl, hbytes⟩ | ⟨rfl, hbytes⟩
  · have hne : SOCKET_ERROR ≠ (m.bytes.length : ℤ) := by rw [hlen]; decide
    simp only [if_neg hne, Fallible.pure_eq, Except.ok.injEq, Prod.mk.injEq] at h
    obtain ⟨rfl, rfl⟩ := h
    exact ⟨hback, rfl, hquiet, hb, rfl, rfl, Or.inr ⟨rfl, m, hid, hbytes⟩⟩
  · simp only [if_true, Fallible.pure_eq, Except.ok.injEq, Prod.mk.injEq] at h
    obtain ⟨rfl, rfl⟩ := h
    refine ⟨?_, ?_, ?_, hb, rfl, rfl, Or.inl ⟨rfl, hbytes⟩⟩
    · split <;> exact hback
    · split <;> rfl
    · split
      · intro l hl
        rcases List.mem_append.mp hl with hl | hl
        · exact hquiet l hl
        · rw [List.mem_singleton.mp hl]
          exact id
      · exact hquiet

/-- A login with the expected id is accepted in silence, and answered under the next id
or not at all. -/
theorem MyServer.onNetMsg_login {s s' : MyServer} {c c' : CELLClient} (hback : s.bSendBack = true)
    (hcheck : s.bCheckMsgID = true) (hwf : c.sendBuff.WF) (hquiet : NoMismatch s.log)
    {f rest : List UInt8} (hf : IsLogin c.nRecvMsgID f) {mem : ℕ → UInt8}
    (h : s.onNetMsg c (f ++ rest) mem = .ok (s', c')) :
    s'.bSendBack = true ∧ s'.bCheckMsgID = true ∧ NoMismatch s'.log ∧ c'.sendBuff.WF ∧
    c'.recvBuff = c.recvBuff ∧ c'.nRecvMsgID = nextMsgID c.nRecvMsgID ∧
    ((c'.nSendMsgID = c.nSendMsgID ∧ c'.sendBuff.bytes = c.sendBuff.bytes) ∨
      (c'.nSendMsgID = nextMsgID c.nSendMsgID ∧ ∃ m : NetmsgLoginR, m.msgID = c.nSendMsgID ∧
        c'.sendBuff.bytes = c.sendBuff.bytes ++ m.bytes)) := by
  obtain ⟨hint, m, hm, rfl⟩ := hf
  have hid : msgID (m.bytes ++ rest) = .ok c.nRecvMsgID := by
    rw [m.msgID_bytes, hm, hint]
  have hcode : CMD.ofCode 10 = some .login := rfl
  rw [MyServer.onNetMsg, m.header_bytes.2.2 rest, Fallible.ok_bind, hcode] at h
  simp only [MyServer.onLogin, MyServer.checkMsgID, if_pos hcheck, CELLClient.resetDTHeart, hid,
    Fallible.ok_bind, Fallible.pure_eq, ne_eq, not_true_eq_false, if_false] at h
  obtain ⟨hback', hcheck', hrest⟩ := MyServer.sendBack_of_ok h hback hwf hquiet
  exact ⟨hback', hcheck'.trans hcheck, hrest⟩

/-- An answer with the expected id is accepted in silence. -/
theorem MyClient.onNetMsg_loginResult {e e' : EasyTcpClient MyClient}
    (hcheck : e.derived.bCheckMsgID = true) {f rest : List UInt8}
    (hf : IsLoginR e.derived.nRecvMsgID f) (h : MyClient.onNetMsg e (f ++ rest) = .ok e') :
    e' = { e with derived :=
      { e.derived with nRecvMsgID := nextMsgID e.derived.nRecvMsgID } } := by
  obtain ⟨hint, m, hm, rfl⟩ := hf
  have hid : msgID (m.bytes ++ rest) = .ok e.derived.nRecvMsgID := by
    rw [m.msgID_bytes, hm, hint]
  have hcode : CMD.ofCode 11 = some .loginResult := rfl
  rw [MyClient.onNetMsg, m.header_bytes.2.2 rest, Fallible.ok_bind, hcode] at h
  simp only [MyClient.onLoginResult, if_pos hcheck, hid, Fallible.ok_bind, Fallible.bind_eq_ok] at h
  obtain ⟨c, -, h⟩ := h
  rw [if_neg (by simp), Fallible.pure_eq, Except.ok.injEq] at h
  exact h.symm

/-! ## The invariant -/

/-- The client object is `c`, and both directions carry consecutive ids. -/
structure Linked (s : Connection) (c : CELLClient) : Prop where
  client : s.client.pClient = some c
  clientSend : c.sendBuff.WF
  clientRecv : c.recvBuff.WF
  serverSend : s.pClient.sendBuff.WF
  serverRecv : s.pClient.recvBuff.WF
  sendBack : s.server.bSendBack = true
  serverChecks : s.server.bCheckMsgID = true
  clientChecks : s.client.derived.bCheckMsgID = true
  up : InTransit IsLogin nextMsgID s.pClient.recvBuff.bytes s.up c.sendBuff.bytes
    s.pClient.nRecvMsgID s.client.derived.nSendMsgID
  down : InTransit IsLoginR nextMsgID c.recvBuff.bytes s.down s.pClient.sendBuff.bytes
    s.client.derived.nRecvMsgID s.pClient.nSendMsgID
  clientID : int32 s.client.derived.nSendMsgID = s.client.derived.nSendMsgID
  serverID : int32 s.pClient.nSendMsgID = s.pClient.nSendMsgID
  serverQuiet : NoMismatch s.server.log
  clientQuiet : NoMismatch s.client.derived.log

namespace Linked

variable {s t : Connection} {c : CELLClient}

theorem deref (h : Linked s c) : s.client.deref = .ok c := by
  rw [EasyTcpClient.deref, h.client]

/-- `SendTest` queues a login under the next id, or queues nothing and keeps the id. -/
theorem sendTest (h : Linked s c) {login : NetmsgLogin} {ret : ℤ} {e : EasyTcpClient MyClient}
    (hs : MyClient.sendTest s.client login = .ok (ret, e)) : ∃ c', Linked (s.setClient e) c' := by
  rw [MyClient.sendTest] at hs
  split at hs
  swap
  · obtain ⟨-, rfl⟩ : 0 = ret ∧ s.client = e := by simpa using hs
    exact ⟨c, h⟩
  simp only [Fallible.bind_eq_ok, EasyTcpClient.sendData] at hs
  obtain ⟨⟨ret', e'⟩, hsend, hs⟩ := hs
  split at hsend
  swap
  · obtain ⟨rfl, rfl⟩ : SOCKET_ERROR = ret' ∧ s.client = e' := by simpa using hsend
    obtain ⟨-, rfl⟩ : SOCKET_ERROR = ret ∧ s.client = e := by simpa using hs
    exact ⟨c, h⟩
  simp only [h.deref, Fallible.ok_bind, Fallible.bind_eq_ok] at hsend
  obtain ⟨⟨ret'', d⟩, hsend, hset⟩ := hsend
  obtain ⟨rfl, rfl⟩ : ret'' = ret' ∧ s.client.setClient d = e' := by simpa using hset
  generalize hm : { login with msgID := s.client.derived.nSendMsgID } = m at hsend
  have hid : m.msgID = s.client.derived.nSendMsgID := by rw [← hm]
  have hlen := m.length_bytes
  obtain ⟨b, rfl, hb, hcases⟩ :=
    CELLClient.sendDataHeader_of_ok h.clientSend (by omega) m.header_bytes.1 hsend
  refine ⟨{ c with sendBuff := b }, ?_⟩
  rcases hcases with ⟨rfl, hbytes⟩ | ⟨rfl, hbytes⟩
  · have hne : SOCKET_ERROR ≠ (m.bytes.length : ℤ) := by rw [hlen]; decide
    simp only [if_pos hne, Fallible.pure_eq, Except.ok.injEq, Prod.mk.injEq] at hs
    obtain ⟨-, rfl⟩ := hs
    have hup := h.up.enqueue ⟨h.clientID, m, hid, rfl⟩
    rw [← hbytes] at hup
    exact { h with client := rfl, clientSend := hb, up := hup, clientID := int32_nextMsgID _ }
  · simp only [ne_eq, not_true_eq_false, if_false, Fallible.pure_eq, Except.ok.injEq,
      Prod.mk.injEq] at hs
    obtain ⟨-, rfl⟩ := hs
    have hup := h.up
    rw [← hbytes] at hup
    exact { h with client := rfl, clientSend := hb, up := hup }

/-- `checkSend` touches no id. -/
theorem checkSend (h : Linked s c) (nMsg nSendSleep dt : ℤ) : Linked (s.setClient
    { s.client with derived := (MyClient.checkSend nMsg nSendSleep s.client.derived dt).2 }) c := by
  obtain ⟨m, hm⟩ : ∃ m, (MyClient.checkSend nMsg nSendSleep s.client.derived dt).2 = m := ⟨_, rfl⟩
  have hsame : m.nSendMsgID = s.client.derived.nSendMsgID ∧
      m.nRecvMsgID = s.client.derived.nRecvMsgID ∧
      m.bCheckMsgID = s.client.derived.bCheckMsgID ∧ m.log = s.client.derived.log := by
    rw [← hm, MyClient.checkSend]
    split <;> exact ⟨rfl, rfl, rfl, rfl⟩
  obtain ⟨hsend, hrecv, hcheck, hlog⟩ := hsame
  rw [hm]
  exact { h with
    clientChecks := hcheck.trans h.clientChecks
    up := by simpa only [Connection.setClient, hsend] using h.up
    down := by simpa only [Connection.setClient, hrecv] using h.down
    clientID := by simpa only [Connection.setClient, hsend] using h.clientID
    clientQuiet := by simpa only [Connection.setClient, hlog] using h.clientQuiet }

/-- What the socket accepts of the client's buffer is on the way up. -/
theorem clientSendDataReal (h : Linked s c) (r : SendResult) : ∃ x c',
    s.client.sendDataReal r = .ok x ∧ Linked (s.afterClientSend x) c' := by
  obtain ⟨ret, k, b, hs, hb, hbytes⟩ := CELLClient.sendDataReal_eq h.clientSend r
  have hup := h.up.send k
  rw [← hbytes] at hup
  refine ⟨(ret, c.sendBuff.bytes.take k, s.client.setClient { c with dtSend := 0, sendBuff := b }),
    { c with dtSend := 0, sendBuff := b }, ?_,
    { h with client := rfl, clientSend := hb, up := hup }⟩
  simp only [EasyTcpClient.sendDataReal, h.deref, hs, Fallible.ok_bind, Fallible.pure_eq]

/-- What the client receives comes off the way down. -/
theorem clientRecvData (h : Linked s c) (n : ℕ) : ∃ x c',
    s.client.clientRecvData (.avail (s.down.take n)) = .ok x ∧
      Linked (s.afterClientRecv x) c' := by
  obtain ⟨ret, b, hr, hb, -, hbytes, hret⟩ :=
    CELLClient.recvData_eq h.clientRecv (.avail (s.down.take n))
  refine ⟨(ret, s.client.setClient { c with recvBuff := b }), { c with recvBuff := b }, ?_,
    { h with client := rfl, clientRecv := hb, down := ?_ }⟩
  · simp only [EasyTcpClient.clientRecvData, h.deref, hr, Fallible.ok_bind, Fallible.pure_eq]
  · rw [RecvResult.data, List.take_take] at hbytes hret
    have harrive := h.down.arrive ret.toNat
    rw [hret, List.length_take, ← List.take_eq_take_min, ← hbytes] at harrive
    simp only [Connection.afterClientRecv, hret, List.length_take]
    exact harrive

/-- What the socket accepts of the server's buffer is on the way down. -/
theorem serverSendDataReal (h : Linked s c) (r : SendResult) : ∃ x,
    s.pClient.sendDataReal r = .ok x ∧ Linked (s.afterServerSend x) c := by
  obtain ⟨ret, k, b, hs, hb, hbytes⟩ := CELLClient.sendDataReal_eq h.serverSend r
  exact ⟨_, hs, { h with
    serverSend := hb
    down := by simpa only [Connection.afterServerSend, hbytes] using h.down.send k }⟩

/-- What the server receives comes off the way up. -/
theorem serverRecvData (h : Linked s c) (n : ℕ) : ∃ x,
    s.pClient.recvData (.avail (s.up.take n)) = .ok x ∧ Linked (s.afterServerRecv x) c := by
  obtain ⟨ret, b, hr, hb, -, hbytes, hret⟩ :=
    CELLClient.recvData_eq h.serverRecv (.avail (s.up.take n))
  refine ⟨_, hr, { h with serverRecv := hb, up := ?_ }⟩
  rw [RecvResult.data, List.take_take] at hbytes hret
  have harrive := h.up.arrive ret.toNat
  rw [hret, List.length_take, ← List.take_eq_take_min, ← hbytes] at harrive
  simp only [Connection.afterServerRecv, hret, List.length_take]
  exact harrive

/-- The message in front of a receive buffer that holds numbered frames. -/
theorem front {P : ℤ → List UInt8 → Prop} (hP : ∀ i f, P i f → netmsgFraming.IsFrame f)
    {d : CELLClient} (hwf : d.recvBuff.WF) {wire queued : List UInt8} {i j : ℤ}
    (h : InTransit P nextMsgID d.recvBuff.bytes wire queued i j)
    (hc : netmsgFraming.Complete d.recvBuff.bytes) : ∃ f rest, d.frontMsg = f ++ rest ∧ P i f ∧
      InTransit P nextMsgID (d.recvBuff.bytes.drop (headerLen d.recvBuff.bytes)) wire queued
        (nextMsgID i) j := by
  have hne : d.recvBuff.bytes ≠ [] := by
    intro hnil
    have h4 := (netmsgFraming_complete.mp hc).1
    simp [hnil] at h4
  obtain ⟨f, rest, hbytes, hf, hlen, htransit⟩ := h.front netmsgFraming hP hc hne
  obtain ⟨zs, hzs⟩ := CELLClient.frontMsg_eq hwf
  refine ⟨f, rest ++ zs, by rw [hzs, hbytes, List.append_assoc], hf, ?_⟩
  rw [(netmsgFraming_frameLen.mp hlen).2, hbytes, List.drop_left]
  exact htransit

/-- The client handles and pops an answer with the id it expects. -/
theorem clientDispatch (h : Linked s c) {o : Option (EasyTcpClient MyClient)}
    (hb : (EasyTcpClient.drain MyClient.onNetMsg).body s.client = .ok o) :
    ∃ c', Linked (s.setClient (o.getD s.client)) c' := by
  rcases drainLoop_body_ok hb h.deref h.clientRecv with ⟨rfl, -⟩ | ⟨e₁, e₂, hc, hmsg, hpop, rfl⟩
  · exact ⟨c, h⟩
  obtain ⟨f, rest, hfront, hf, hdown⟩ := front IsLoginR.isFrame h.clientRecv h.down hc
  rw [hfront] at hmsg
  obtain rfl := MyClient.onNetMsg_loginResult h.clientChecks hf hmsg
  obtain ⟨b, hb, hwf, -, hbytes⟩ := CELLClient.popFrontMsg_eq h.clientRecv hc
  rw [← hbytes] at hdown
  simp only [EasyTcpClient.popFrontMsg, EasyTcpClient.deref, h.client, hb, Fallible.ok_bind,
    Fallible.pure_eq, Except.ok.injEq] at hpop
  subst hpop
  exact ⟨{ c with recvBuff := b }, { h with client := rfl, clientRecv := hwf, down := hdown }⟩

/-- The server handles and pops a login with the id it expects. -/
theorem serverDispatch (h : Linked s c) {mem : ℕ → UInt8} {o : Option (MyServer × CELLClient)}
    (hb : (MyServer.drain mem).body (s.server, s.pClient) = .ok o) :
    Linked (s.afterServerMsg (o.getD (s.server, s.pClient))) c := by
  rcases drainLoop_body_ok hb rfl h.serverRecv with
    ⟨rfl, -⟩ | ⟨⟨server, d⟩, s₂, hc, hmsg, hpop, rfl⟩
  · exact h
  obtain ⟨f, rest, hfront, hf, hup⟩ := front IsLogin.isFrame h.serverRecv h.up hc
  rw [hfront] at hmsg
  obtain ⟨hback, hcheck, hquiet, hsend, hrecv, hrecvID, hcases⟩ :=
    MyServer.onNetMsg_login h.sendBack h.serverChecks h.serverSend h.serverQuiet hf hmsg
  obtain ⟨b, hb, hwf, -, hbytes⟩ :=
    CELLClient.popFrontMsg_eq (c := d) (hrecv ▸ h.serverRecv) (hrecv ▸ hc)
  rw [← hrecv, ← hbytes, ← hrecvID] at hup
  simp only [hb, Fallible.ok_bind, Fallible.pure_eq, Except.ok.injEq] at hpop
  subst hpop
  have hdown : InTransit IsLoginR nextMsgID c.recvBuff.bytes s.down d.sendBuff.bytes
      s.client.derived.nRecvMsgID d.nSendMsgID ∧ int32 d.nSendMsgID = d.nSendMsgID := by
    rcases hcases with ⟨hid, hsent⟩ | ⟨hid, m, hm, hsent⟩
    · rw [hid, hsent]
      exact ⟨h.down, h.serverID⟩
    · rw [hid, hsent]
      exact ⟨h.down.enqueue ⟨h.serverID, m, hm, rfl⟩, int32_nextMsgID _⟩
  exact { h with
    serverSend := hsend, serverRecv := hwf, sendBack := hback, serverChecks := hcheck
    up := hup, down := hdown.1, serverID := hdown.2, serverQuiet := hquiet }

/-- Every step keeps the connection linked. -/
theorem step (h : Linked s c) {nMsg nSendSleep : ℤ} {a : ConnectionAct}
    (hstep : s.step nMsg nSendSleep a = .ok t) : ∃ c', Linked t c' := by
  cases a with
  | sendTest login =>
    obtain ⟨⟨ret, e⟩, hs, rfl⟩ := Exec.map_eq_ok.mp hstep
    exact h.sendTest hs
  | checkSend dt =>
    obtain rfl := Except.ok.inj hstep
    exact ⟨c, h.checkSend nMsg nSendSleep dt⟩
  | clientSendDataReal r =>
    obtain ⟨x, c', hx, hlinked⟩ := h.clientSendDataReal r
    obtain ⟨y, hy, rfl⟩ := Exec.map_eq_ok.mp hstep
    obtain rfl : x = y := by simpa [hx] using hy
    exact ⟨c', hlinked⟩
  | clientRecvData n =>
    obtain ⟨x, c', hx, hlinked⟩ := h.clientRecvData n
    obtain ⟨y, hy, rfl⟩ := Exec.map_eq_ok.mp hstep
    obtain rfl : x = y := by simpa [hx] using hy
    exact ⟨c', hlinked⟩
  | clientDispatch =>
    obtain ⟨o, ho, rfl⟩ := Exec.map_eq_ok.mp hstep
    exact h.clientDispatch ho
  | serverSendDataReal r =>
    obtain ⟨x, hx, hlinked⟩ := h.serverSendDataReal r
    obtain ⟨y, hy, rfl⟩ := Exec.map_eq_ok.mp hstep
    obtain rfl : x = y := by simpa [hx] using hy
    exact ⟨c, hlinked⟩
  | serverRecvData n =>
    obtain ⟨x, hx, hlinked⟩ := h.serverRecvData n
    obtain ⟨y, hy, rfl⟩ := Exec.map_eq_ok.mp hstep
    obtain rfl : x = y := by simpa [hx] using hy
    exact ⟨c, hlinked⟩
  | serverDispatch mem =>
    obtain ⟨o, ho, rfl⟩ := Exec.map_eq_ok.mp hstep
    exact ⟨c, h.serverDispatch ho⟩

theorem init {nMsg nSendSleep : ℤ} (hinit : (connection nMsg nSendSleep).init s) :
    ∃ c, Linked s c := by
  have hone : int32 1 = 1 := int32_eq (by decide) (by decide)
  obtain ⟨fd, fd', cs, cr, ss, sr, mem, counts, bSendFull, hsizes, rfl⟩ := hinit
  simp only [List.forall_mem_cons, List.not_mem_nil, false_imp_iff, implies_true,
    and_true] at hsizes
  obtain ⟨⟨hcs, hcs'⟩, ⟨hcr, hcr'⟩, ⟨hss, hss'⟩, hsr, hsr'⟩ := hsizes
  exact ⟨_, {
    client := rfl
    clientSend := CELLBuffer.new_wf (by omega) hcs' _
    clientRecv := CELLBuffer.new_wf (by omega) hcr' _
    serverSend := CELLBuffer.new_wf (by omega) hss' _
    serverRecv := CELLBuffer.new_wf (by omega) hsr' _
    sendBack := rfl
    serverChecks := rfl
    clientChecks := rfl
    up := by
      simp only [Connection.new, CELLClient.recvBuff_new, CELLClient.sendBuff_new,
        CELLBuffer.bytes_new]
      exact .empty 1
    down := by
      simp only [Connection.new, CELLClient.recvBuff_new, CELLClient.sendBuff_new,
        CELLBuffer.bytes_new]
      exact .empty 1
    clientID := hone
    serverID := hone
    serverQuiet := by simp [NoMismatch, Connection.new]
    clientQuiet := by simp [NoMismatch, Connection.new, MyClient.new] }⟩

end Linked

/-- Message ids are consecutive end to end. In every state reachable by any calls on the
two sides, neither has ever logged an id other than the one it expected, and the message
either would handle next has the id it expects. -/
theorem message_ids_consecutive (nMsg nSendSleep : ℤ) {s : Connection}
    (h : (connection nMsg nSendSleep).Reachable s) :
    NoMismatch s.server.log ∧ NoMismatch s.client.derived.log ∧
    (netmsgFraming.Complete s.pClient.recvBuff.bytes →
      msgID s.pClient.frontMsg = .ok s.pClient.nRecvMsgID) ∧
    ∀ c, s.client.pClient = some c → netmsgFraming.Complete c.recvBuff.bytes →
      msgID c.frontMsg = .ok s.client.derived.nRecvMsgID := by
  obtain ⟨c, hc⟩ : ∃ c, Linked s c :=
    h.invariant (fun _ hinit => Linked.init hinit) fun _ _ _ ⟨_, hc⟩ hstep => hc.step hstep.symm
  refine ⟨hc.serverQuiet, hc.clientQuiet, fun hcompl => ?_, fun c' hc' hcompl => ?_⟩
  · obtain ⟨f, rest, hfront, ⟨hint, m, hm, rfl⟩, -⟩ :=
      Linked.front IsLogin.isFrame hc.serverRecv hc.up hcompl
    rw [hfront, m.msgID_bytes, hm, hint]
  · obtain rfl : c = c' := by simpa [hc.client] using hc'
    obtain ⟨f, rest, hfront, ⟨hint, m, hm, rfl⟩, -⟩ :=
      Linked.front IsLoginR.isFrame hc.clientRecv hc.down hcompl
    rw [hfront, m.msgID_bytes, hm, hint]

/-- One login in two pieces, and its answer. -/
theorem message_ids_consecutive_echo : ∃ s, (connection 1 100).Reachable s ∧
    (s.pClient.nRecvMsgID, s.client.derived.nRecvMsgID) = (2, 2) ∧
    NoMismatch s.server.log ∧ NoMismatch s.client.derived.log := by
  let login : NetmsgLogin := ⟨.replicate 32 0, .replicate 32 0, .replicate 28 0, 0⟩
  let calls : List ConnectionAct := [.checkSend 100, .sendTest login,
    .clientSendDataReal (.accept 60), .serverRecvData 100, .serverDispatch fun _ => 0,
    .clientSendDataReal (.accept 60), .serverRecvData 100, .serverDispatch fun _ => 0,
    .serverSendDataReal (.accept 100), .clientRecvData 100, .clientDispatch]
  have heval : ((calls.foldlM (fun s a => (Connection.step 1 100 s a).toOption)
      (.new 3 5 100 100 100 100 (fun _ _ => 0) .zero false)).map fun s =>
        (s.pClient.nRecvMsgID, s.client.derived.nRecvMsgID)) = some (2, 2) := by
    decide +kernel
  obtain ⟨tr, s, hrun, -, hids⟩ := Machine.Run.of_foldlM_map (M := connection 1 100)
    (fun _ _ _ h => (Exec.toOption_eq_some.mp h).symm) heval
  have hreach : (connection 1 100).Reachable s :=
    ⟨_, tr, ⟨3, 5, 100, 100, 100, 100, fun _ _ => 0, .zero, false, by decide, rfl⟩, hrun⟩
  have hquiet := message_ids_consecutive 1 100 hreach
  exact ⟨s, hreach, hids, hquiet.1, hquiet.2.1⟩

/-! ## The calls as the client makes them -/

/-- `EasyTcpClient::RecvData` is a receive and then dispatches. -/
theorem recvData_run (nMsg nSendSleep : ℤ) (s : Connection) (k n : ℕ) {ret : ℤ}
    {e : EasyTcpClient MyClient}
    (h : s.client.recvData MyClient.onNetMsg n (.avail (s.down.take k)) = some (.ok (ret, e))) :
    ∃ tr, (connection nMsg nSendSleep).Run s tr (s.afterClientRecv (ret, e)) := by
  rw [EasyTcpClient.recvData] at h
  split at h
  swap
  · obtain ⟨rfl, rfl⟩ : 0 = ret ∧ s.client = e := by simpa using h
    exact ⟨[], .nil s⟩
  cases hr : s.client.clientRecvData (.avail (s.down.take k)) with
  | error u => simp [hr] at h
  | ok x =>
    obtain ⟨nLen, e₁⟩ := x
    have hrecv : (connection nMsg nSendSleep).Run s [(s, .clientRecvData k)]
        (s.afterClientRecv (nLen, e₁)) := by
      refine .single ?_
      simp only [connection, Connection.step, hr]
      rfl
    simp only [hr] at h
    split at h
    · obtain ⟨o, ho, hret⟩ := Option.map_eq_some_iff.mp h
      obtain ⟨e₂, rfl, heq⟩ := Exec.map_eq_ok.mp hret
      obtain ⟨rfl, rfl⟩ := Prod.mk.inj heq
      have hpass := (Loop.Ends.passes ⟨n, ho⟩).1
      clear ho hret h heq
      induction hpass with
      | refl => exact ⟨_, hrecv⟩
      | @tail e₂ e₃ _ hb ih =>
        obtain ⟨tr, htr⟩ := ih
        refine ⟨_, htr.snoc (a := .clientDispatch) ?_⟩
        simp only [connection, Connection.step, Connection.afterClientRecv, hb]
        rfl
    · obtain ⟨rfl, rfl⟩ : nLen = ret ∧ e₁ = e := by simpa using h
      exact ⟨_, hrecv⟩

end CellNet
