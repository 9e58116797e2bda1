import CellNet.EndToEnd
import CellNet.SignsOfLife

/-!
# A connection can always be drained

Whatever has happened on a connection, calls on the two sides can bring every byte that is
under way to its handler. The calls are chosen from the receiving end backwards : dispatch
a complete message if there is one, else receive what is on the way, else send what is
queued, first in the direction of the client and then in that of the server. An incomplete
message leaves room in a receive buffer of 100 bytes, and an answer is queued only when the
send buffer of the server is empty. `backlog` weighs a byte by the way it has still to go,
an answer included, and each of these calls lowers it (`Linked.advance`). At the end nothing
is under way, and each side expects the id that the other gives next :
`connection_drains`.
-/

namespace CellNet

namespace CELLBuffer.WF

variable {b : CELLBuffer}

/-- A socket with room for all that is stored takes it. -/
theorem write2socket_all (h : b.WF) (hne : b.bytes ≠ []) {fd : SOCKET} (hfd : INVALID_SOCKET ≠ fd) :
    ∃ b', b.write2socket fd (.accept b.bytes.length) = .ok (b.bytes.length, b.bytes, b') ∧
      b'.bytes = [] := by
  have hlen := h.length_bytes
  have hpos : 0 < b.bytes.length := List.length_pos_iff.mpr hne
  have hload : Block.load b.pBuff 0 b.nLast = .ok b.bytes := by
    have hle := h.le
    have hsize := h.size
    have hload := Block.load_eq b.pBuff 0 b.bytes.length (by omega)
    rw [Nat.cast_zero, List.drop_zero, hlen] at hload
    rw [hload, ← List.prefix_iff_eq_take.mp h.bytes_prefix]
  have hret : (SendResult.accept b.bytes.length).ret b.nLast = b.nLast := by
    rw [SendResult.ret, hlen, min_self]
  refine ⟨{ b with nLast := 0, fullCount := 0 }, ?_, by simp [bytes]⟩
  rw [write2socket, if_pos ⟨by omega, hfd⟩, hload, Fallible.ok_bind]
  dsimp only
  rw [hret, if_neg (by omega), if_pos rfl, hlen]
  rfl

end CELLBuffer.WF

namespace CELLClient

variable {c : CELLClient}

theorem sendDataReal_all (h : c.sendBuff.WF) (hne : c.sendBuff.bytes ≠ [])
    (hfd : INVALID_SOCKET ≠ c.sockfd) : ∃ b,
      c.sendDataReal (.accept c.sendBuff.bytes.length) = .ok (c.sendBuff.bytes.length,
        c.sendBuff.bytes, { c with dtSend := 0, sendBuff := b }) ∧ b.bytes = [] := by
  obtain ⟨b, hw, hnil⟩ := h.write2socket_all hne hfd
  refine ⟨b, ?_, hnil⟩
  simp only [sendDataReal, resetDTSend, hw, Fallible.ok_bind, Fallible.pure_eq]

/-- A message is queued or refused if its end does not overflow. -/
theorem sendDataHeader_exists (h : c.sendBuff.WF) {m : List UInt8} (h2 : 2 ≤ m.length)
    (hm : headerLen m = m.length) (hov : c.sendBuff.nLast + m.length < 2147483648) :
    ∃ x, c.sendDataHeader m = .ok x := by
  have hpush : ∃ y, c.sendBuff.push m m.length = .ok y := by
    by_cases hfit : c.sendBuff.nLast + m.length ≤ c.sendBuff.nSize
    · obtain ⟨b, hb, -⟩ := h.push_of_fits (by omega) (le_refl _) hfit
      exact ⟨_, hb⟩
    · exact ⟨_, h.push_of_not_fits (by omega) hov (not_le.mp hfit)⟩
  obtain ⟨⟨ok, b⟩, hb⟩ := hpush
  rw [sendDataHeader, dataLength_eq h2, hm, Fallible.ok_bind, sendData, hb, Fallible.ok_bind]
  cases ok <;> exact ⟨_, rfl⟩

/-- What a receive buffer with room for it takes off the wire. -/
theorem recvData_take (h : c.recvBuff.WF) {wire : List UInt8} (hwire : wire ≠ [])
    (hroom : (c.recvBuff.bytes.length : ℤ) < c.recvBuff.nSize) : ∃ (k : ℕ) (b : CELLBuffer),
      0 < k ∧ k ≤ wire.length ∧ c.recvData (.avail (wire.take wire.length)) =
        .ok (k, { c with recvBuff := b }) ∧ b.WF ∧ b.nSize = c.recvBuff.nSize ∧
      b.bytes = c.recvBuff.bytes ++ wire.take k := by
  have hpos : 0 < wire.length := List.length_pos_iff.mpr hwire
  have hfree : 0 < c.recvBuff.free := by
    rw [h.free_eq]
    omega
  have hdata : RecvResult.data (.avail (wire.take wire.length)) c.recvBuff.free =
      wire.take c.recvBuff.free.toNat := by
    rw [RecvResult.data, List.take_length]
  have hcases := h.read4socket_of_free hfree (.avail (wire.take wire.length))
  rw [hdata] at hcases
  rcases hcases with ⟨hnil, -⟩ | ⟨-, b, hread, hwf, hsize, hbytes⟩
  · have hlen := congrArg List.length hnil
    rw [List.length_take, List.length_nil] at hlen
    omega
  · refine ⟨(wire.take c.recvBuff.free.toNat).length, b, ?_, ?_, ?_, hwf, hsize, ?_⟩
    · rw [List.length_take]
      omega
    · exact List.length_take_le' _ _
    · simp only [recvData, hread, Fallible.ok_bind, Fallible.pure_eq]
    · rw [hbytes, List.length_take, ← List.take_eq_take_min]

end CELLClient

/-- The handler returns for a login, if the answer does not overflow the send buffer. -/
theorem MyServer.onNetMsg_exists {s : MyServer} {c : CELLClient} (hback : s.bSendBack = true)
    (hwf : c.sendBuff.WF) (hov : c.sendBuff.nLast + 100 < 2147483648) {i : ℤ}
    {f rest : List UInt8} (hf : IsLogin i f) (mem : ℕ → UInt8) :
    ∃ x, s.onNetMsg c (f ++ rest) mem = .ok x := by
  obtain ⟨-, m, -, rfl⟩ := hf
  have hcode : CMD.ofCode 10 = some .login := rfl
  rw [MyServer.onNetMsg, m.header_bytes.2.2 rest, Fallible.ok_bind, hcode]
  dsimp only
  have hsend : ∀ (t : MyServer) (d : CELLClient), t.bSendBack = true → d.sendBuff = c.sendBuff →
      ∃ x, t.sendBack d mem = .ok x := by
    intro t d ht hd
    rw [MyServer.sendBack, if_pos ht]
    generalize NetmsgLoginR.mk 0 (Vector.ofFn fun i => mem i) d.nSendMsgID = r
    obtain ⟨⟨sent, e⟩, he⟩ := CELLClient.sendDataHeader_exists (hd ▸ hwf) (m := r.bytes)
      (by rw [r.length_bytes]; decide) r.header_bytes.1 (by rw [hd, r.length_bytes]; exact hov)
    dsimp only
    rw [he, Fallible.ok_bind]
    dsimp only
    split <;> exact ⟨_, rfl⟩
  rw [MyServer.onLogin, MyServer.checkMsgID]
  split
  · rw [m.msgID_bytes, Fallible.ok_bind]
    refine hsend _ _ ?_ rfl
    split <;> exact hback
  · exact hsend _ _ hback rfl

/-! ## What a call never changes -/

/-- The size of the receive buffer, and the descriptor. -/
def CELLClient.shape (c : CELLClient) : ℤ × SOCKET :=
  (c.recvBuff.nSize, c.sockfd)

namespace CELLClient

variable {c c' : CELLClient}

theorem recvData_shape (h : c.recvBuff.WF) {r : RecvResult} {n : ℤ}
    (hr : c.recvData r = .ok (n, c')) : c'.shape = c.shape := by
  obtain ⟨ret, b, hread, -, hsize, -⟩ := h.read4socket_eq r
  rw [recvData, hread, Fallible.ok_bind] at hr
  obtain ⟨-, rfl⟩ := Prod.mk.inj (Except.ok.inj hr)
  rw [shape, shape, hsize]

theorem sendDataReal_shape {r : SendResult} {n : ℤ} {sent : List UInt8}
    (h : c.sendDataReal r = .ok (n, sent, c')) : c'.shape = c.shape := by
  obtain ⟨b, rfl⟩ := sendDataReal_of_ok h
  rfl

theorem sendDataHeader_shape {m : List UInt8} {n : ℤ} (h : c.sendDataHeader m = .ok (n, c')) :
    c'.shape = c.shape := by
  obtain ⟨len, -, h⟩ := Fallible.bind_eq_ok.mp h
  obtain ⟨b, rfl⟩ := sendData_of_ok h
  rfl

theorem popFrontMsg_shape (h : c.recvBuff.WF) (hc : netmsgFraming.Complete c.recvBuff.bytes)
    (hpop : c.popFrontMsg = .ok c') : c'.shape = c.shape := by
  obtain ⟨b, hb, -, hsize, -⟩ := popFrontMsg_eq h hc
  obtain rfl := Except.ok.inj (hb.symm.trans hpop)
  rw [shape, shape, hsize]

end CELLClient

namespace Linked

variable {s t : Connection} {c c' : CELLClient} {nMsg nSendSleep : ℤ} {a : ConnectionAct}

/-- A step changes no buffer size and no descriptor. -/
theorem shape_step (h : Linked s c) (hstep : s.step nMsg nSendSleep a = .ok t)
    (hc : t.client.pClient = some c') : c'.shape = c.shape ∧ t.pClient.shape = s.pClient.shape := by
  have hsame : ∀ {d}, some c = some d → d.shape = c.shape := by
    rintro d ⟨⟩
    rfl
  cases a with
  | sendTest login =>
    obtain ⟨⟨ret, e⟩, hs, rfl⟩ := Exec.map_eq_ok.mp hstep
    refine ⟨?_, rfl⟩
    change e.pClient = some c' at hc
    rw [MyClient.sendTest] at hs
    split at hs
    swap
    · obtain ⟨-, rfl⟩ := Prod.mk.inj (Except.ok.inj hs)
      exact hsame (h.client.symm.trans hc)
    obtain ⟨⟨n, e'⟩, hsend, hs⟩ := Fallible.bind_eq_ok.mp hs
    have he' : e.pClient = e'.pClient := by
      dsimp only at hs
      split at hs <;> obtain ⟨-, rfl⟩ := Prod.mk.inj (Except.ok.inj hs) <;> rfl
    rw [he'] at hc
    rw [EasyTcpClient.sendData] at hsend
    split at hsend
    swap
    · obtain ⟨-, rfl⟩ := Prod.mk.inj (Except.ok.inj hsend)
      exact hsame (h.client.symm.trans hc)
    rw [h.deref, Fallible.ok_bind] at hsend
    obtain ⟨⟨n', d⟩, hd, hsend⟩ := Fallible.bind_eq_ok.mp hsend
    obtain ⟨-, rfl⟩ := Prod.mk.inj (Except.ok.inj hsend)
    obtain rfl := Option.some.inj hc
    exact CELLClient.sendDataHeader_shape hd
  | checkSend dt =>
    obtain rfl := Except.ok.inj hstep
    exact ⟨hsame (h.client.symm.trans hc), rfl⟩
  | clientSendDataReal r =>
    obtain ⟨⟨n, sent, e⟩, hs, rfl⟩ := Exec.map_eq_ok.mp hstep
    rw [EasyTcpClient.sendDataReal, h.deref, Fallible.ok_bind] at hs
    obtain ⟨⟨n', sent', d⟩, hd, hs⟩ := Fallible.bind_eq_ok.mp hs
    obtain ⟨-, heq⟩ := Prod.mk.inj (Except.ok.inj hs)
    obtain ⟨-, rfl⟩ := Prod.mk.inj heq
    obtain rfl := Option.some.inj hc
    exact ⟨CELLClient.sendDataReal_shape hd, rfl⟩
  | clientRecvData n =>
    obtain ⟨⟨n, e⟩, hs, rfl⟩ := Exec.map_eq_ok.mp hstep
    rw [EasyTcpClient.clientRecvData, h.deref, Fallible.ok_bind] at hs
    obtain ⟨⟨n', d⟩, hd, hs⟩ := Fallible.bind_eq_ok.mp hs
    obtain ⟨-, rfl⟩ := Prod.mk.inj (Except.ok.inj hs)
    obtain rfl := Option.some.inj hc
    exact ⟨CELLClient.recvData_shape h.clientRecv hd, rfl⟩
  | clientDispatch =>
    obtain ⟨o, ho, rfl⟩ := Exec.map_eq_ok.mp hstep
    refine ⟨?_, rfl⟩
    rcases drainLoop_body_ok ho h.deref h.clientRecv with
      ⟨rfl, -⟩ | ⟨e₁, e₂, hcompl, hmsg, hpop, rfl⟩
    · exact hsame (h.client.symm.trans hc)
    obtain ⟨f, rest, hfront, hf, -⟩ := front IsLoginR.isFrame h.clientRecv h.down hcompl
    rw [hfront] at hmsg
    obtain rfl := MyClient.onNetMsg_loginResult h.clientChecks hf hmsg
    obtain ⟨d, hd, hpop⟩ := Fallible.bind_eq_ok.mp hpop
    obtain ⟨d', hd', hpop⟩ := Fallible.bind_eq_ok.mp hpop
    obtain rfl := Except.ok.inj hpop
    obtain rfl : c = d := Except.ok.inj (h.deref.symm.trans hd)
    obtain rfl := Option.some.inj hc
    exact CELLClient.popFrontMsg_shape h.clientRecv hcompl hd'
  | serverSendDataReal r =>
    obtain ⟨⟨n, sent, d⟩, hs, rfl⟩ := Exec.map_eq_ok.mp hstep
    exact ⟨hsame (h.client.symm.trans hc), CELLClient.sendDataReal_shape hs⟩
  | serverRecvData n =>
    obtain ⟨⟨n, d⟩, hs, rfl⟩ := Exec.map_eq_ok.mp hstep
    exact ⟨hsame (h.client.symm.trans hc), CELLClient.recvData_shape h.serverRecv hs⟩
  | serverDispatch mem =>
    obtain ⟨o, ho, rfl⟩ := Exec.map_eq_ok.mp hstep
    refine ⟨hsame (h.client.symm.trans hc), ?_⟩
    rcases drainLoop_body_ok ho rfl h.serverRecv with
      ⟨rfl, -⟩ | ⟨⟨server, d⟩, s₂, hcompl, hmsg, hpop, rfl⟩
    · rfl
    obtain ⟨i, j, b, hd⟩ := MyServer.Answered.of_ok hmsg
    dsimp only at hd
    obtain ⟨d', hd', hpop⟩ := Fallible.bind_eq_ok.mp hpop
    obtain rfl := Except.ok.inj hpop
    have hrecv : d.recvBuff = s.pClient.recvBuff := by rw [hd]
    have hshape : d.shape = s.pClient.shape := by rw [hd]; rfl
    exact (CELLClient.popFrontMsg_shape (hrecv ▸ h.serverRecv) (hrecv ▸ hcompl) hd').trans hshape

theorem of_step (h : Linked s c) (hstep : s.step nMsg nSendSleep a = .ok t)
    (hc : t.client.pClient = some c') : Linked t c' := by
  obtain ⟨d, hd⟩ := h.step hstep
  obtain rfl : d = c' := Option.some.inj (hd.client.symm.trans hc)
  exact hd

end Linked

/-! ## The calls that drain it -/

/-- The call is a `SendTest`. -/
def ConnectionAct.isSendTest : ConnectionAct → Bool
  | .sendTest _ => true
  | _ => false

namespace Connection

/-- The receive buffers have room for a message, and the sockets are open. -/
structure Roomy (s : Connection) (c : CELLClient) : Prop where
  clientRecv : 100 ≤ c.recvBuff.nSize
  clientSock : INVALID_SOCKET ≠ c.sockfd
  serverRecv : 100 ≤ s.pClient.recvBuff.nSize
  serverSock : INVALID_SOCKET ≠ s.pClient.sockfd

/-- The bytes under way, each weighed by the way it has still to go. An answer is as long
as a login. -/
def backlog (s : Connection) (c : CELLClient) : ℕ :=
  8 * c.sendBuff.bytes.length + 7 * s.up.length + 6 * s.pClient.recvBuff.bytes.length +
    3 * s.pClient.sendBuff.bytes.length + 2 * s.down.length + c.recvBuff.bytes.length

/-- Some call that sends no new login lowers the backlog. -/
def Advances (nMsg nSendSleep : ℤ) (s : Connection) (c : CELLClient) : Prop :=
  ∃ a t c', ConnectionAct.isSendTest a = false ∧ s.step nMsg nSendSleep a = .ok t ∧
    t.client.pClient = some c' ∧ t.backlog c' < s.backlog c ∧
    t.client.derived.nSendMsgID = s.client.derived.nSendMsgID

theorem Roomy.of_shape {s t : Connection} {c c' : CELLClient} (h : s.Roomy c)
    (hc : c'.shape = c.shape) (hs : t.pClient.shape = s.pClient.shape) : t.Roomy c' := by
  obtain ⟨hsize, hfd⟩ := Prod.mk.inj hc
  obtain ⟨hsize', hfd'⟩ := Prod.mk.inj hs
  exact ⟨hsize ▸ h.clientRecv, hfd ▸ h.clientSock, hsize' ▸ h.serverRecv, hfd' ▸ h.serverSock⟩

end Connection

theorem IsLogin.length {i : ℤ} {f : List UInt8} (h : IsLogin i f) : f.length = 100 := by
  obtain ⟨-, m, -, rfl⟩ := h
  exact m.length_bytes

theorem IsLoginR.length {i : ℤ} {f : List UInt8} (h : IsLoginR i f) : f.length = 100 := by
  obtain ⟨-, m, -, rfl⟩ := h
  exact m.length_bytes

/-- The handler returns for an answer. -/
theorem MyClient.onNetMsg_exists {e : EasyTcpClient MyClient} {c : CELLClient}
    (hc : e.pClient = some c) {i : ℤ} {f rest : List UInt8} (hf : IsLoginR i f) :
    ∃ e', MyClient.onNetMsg e (f ++ rest) = .ok e' := by
  obtain ⟨-, m, -, rfl⟩ := hf
  have hcode : CMD.ofCode 11 = some .loginResult := rfl
  rw [MyClient.onNetMsg, m.header_bytes.2.2 rest, Fallible.ok_bind, hcode]
  dsimp only
  rw [MyClient.onLoginResult]
  split
  · rw [m.msgID_bytes, Fallible.ok_bind, EasyTcpClient.deref, hc]
    exact ⟨_, rfl⟩
  · exact ⟨_, rfl⟩

namespace Linked

variable {s t : Connection} {c c' : CELLClient} {nMsg nSendSleep : ℤ} {a : ConnectionAct}

/-- A complete message is as long as all of them. -/
theorem headerLen_eq {P : ℤ → List UInt8 → Prop} (hP : ∀ i f, P i f → netmsgFraming.IsFrame f)
    (hlen : ∀ i f, P i f → f.length = 100) {arrived wire queued : List UInt8} {i j : ℤ}
    (h : InTransit P nextMsgID arrived wire queued i j) (hc : netmsgFraming.Complete arrived) :
    headerLen arrived = 100 := by
  have hne : arrived ≠ [] := by
    rintro rfl
    exact netmsgFraming_not_complete_nil hc
  obtain ⟨f, -, -, hf, hframe, -⟩ := h.front netmsgFraming hP hc hne
  rw [(netmsgFraming_frameLen.mp hframe).2, hlen i f hf]

theorem advance_clientDispatch (h : Linked s c)
    (hcompl : netmsgFraming.Complete c.recvBuff.bytes) : s.Advances nMsg nSendSleep c := by
  obtain ⟨f, rest, hfront, hf, -⟩ := front IsLoginR.isFrame h.clientRecv h.down hcompl
  obtain ⟨e, hmsg⟩ := MyClient.onNetMsg_exists h.client hf
  have he := MyClient.onNetMsg_loginResult h.clientChecks hf hmsg
  rw [← hfront] at hmsg
  obtain ⟨b, hpopped, -, -, hbytes⟩ := CELLClient.popFrontMsg_eq h.clientRecv hcompl
  have hpop : e.popFrontMsg = .ok (e.setClient { c with recvBuff := b }) := by
    simp only [he, EasyTcpClient.popFrontMsg, EasyTcpClient.deref, h.client, hpopped,
      Fallible.ok_bind, Fallible.pure_eq]
  have hbody := drainLoop_body_eq h.deref h.clientRecv hcompl hmsg hpop
  refine ⟨.clientDispatch, s.setClient (e.setClient { c with recvBuff := b }),
    { c with recvBuff := b }, rfl, ?_, rfl, ?_, by rw [he]; rfl⟩
  · rw [Connection.step, EasyTcpClient.drain, hbody]
    rfl
  · have hheader := headerLen_eq IsLoginR.isFrame (fun i f hf => hf.length) h.down hcompl
    have hle := (netmsgFraming_complete.mp hcompl).2
    have hlen := congrArg List.length hbytes
    rw [List.length_drop] at hlen
    simp only [Connection.backlog, Connection.setClient]
    omega

theorem advance_clientRecv (h : Linked s c) (hr : s.Roomy c)
    (hnot : ¬netmsgFraming.Complete c.recvBuff.bytes) (hdown : s.down ≠ []) :
    s.Advances nMsg nSendSleep c := by
  have hlt := h.down.length_lt netmsgFraming IsLoginR.isFrame (by decide)
    (fun i f hf => hf.length) hnot
  have hsize := hr.clientRecv
  obtain ⟨k, b, hk, hle, hrecv, -, -, hbytes⟩ :=
    CELLClient.recvData_take h.clientRecv hdown (by omega)
  refine ⟨.clientRecvData s.down.length, s.afterClientRecv (k, s.client.setClient
    { c with recvBuff := b }), { c with recvBuff := b }, rfl, ?_, rfl, ?_, rfl⟩
  · rw [Connection.step, EasyTcpClient.clientRecvData, h.deref, Fallible.ok_bind, hrecv]
    rfl
  · have hlen := congrArg List.length hbytes
    rw [List.length_append, List.length_take] at hlen
    simp only [Connection.backlog, Connection.afterClientRecv, Int.toNat_natCast, List.length_drop]
    omega

theorem advance_serverSend (h : Linked s c) (hr : s.Roomy c)
    (hsend : s.pClient.sendBuff.bytes ≠ []) : s.Advances nMsg nSendSleep c := by
  obtain ⟨b, hs, hnil⟩ := CELLClient.sendDataReal_all h.serverSend hsend hr.serverSock
  have hpos := List.length_pos_iff.mpr hsend
  refine ⟨.serverSendDataReal (.accept s.pClient.sendBuff.bytes.length), s.afterServerSend
    (s.pClient.sendBuff.bytes.length, s.pClient.sendBuff.bytes,
      { s.pClient with dtSend := 0, sendBuff := b }), c, rfl, ?_, h.client, ?_, rfl⟩
  · rw [Connection.step, hs]
    rfl
  · simp only [Connection.backlog, Connection.afterServerSend, hnil, List.length_append,
      List.length_nil]
    omega

theorem advance_serverDispatch (h : Linked s c)
    (hcompl : netmsgFraming.Complete s.pClient.recvBuff.bytes)
    (hempty : s.pClient.sendBuff.bytes = []) : s.Advances nMsg nSendSleep c := by
  have hheader := headerLen_eq IsLogin.isFrame (fun i f hf => hf.length) h.up hcompl
  obtain ⟨f, rest, hfront, hf, -⟩ := front IsLogin.isFrame h.serverRecv h.up hcompl
  have hlast : s.pClient.sendBuff.nLast = 0 := by
    rw [← h.serverSend.length_bytes, hempty]
    rfl
  obtain ⟨⟨server, d⟩, hmsg⟩ := MyServer.onNetMsg_exists h.sendBack h.serverSend
    (by rw [hlast]; decide) hf (fun _ => 0)
  obtain ⟨-, -, -, -, hrecv, -, hcases⟩ := MyServer.onNetMsg_login h.sendBack h.serverChecks
    h.serverSend h.serverQuiet hf hmsg
  rw [← hfront] at hmsg
  obtain ⟨b, hpop, -, -, hbytes⟩ :=
    CELLClient.popFrontMsg_eq (c := d) (hrecv ▸ h.serverRecv) (hrecv ▸ hcompl)
  have hbody : (MyServer.drain fun _ => 0).body (s.server, s.pClient) =
      .ok (some (server, { d with recvBuff := b })) := by
    refine drainLoop_body_eq rfl h.serverRecv hcompl hmsg ?_
    simp only [hpop, Fallible.ok_bind, Fallible.pure_eq]
  refine ⟨.serverDispatch fun _ => 0, s.afterServerMsg (server, { d with recvBuff := b }), c, rfl,
    ?_, h.client, ?_, rfl⟩
  · rw [Connection.step, hbody]
    rfl
  · have hle := (netmsgFraming_complete.mp hcompl).2
    have hlen := congrArg List.length hbytes
    rw [hrecv, hheader, List.length_drop] at hlen
    have hanswer : d.sendBuff.bytes.length ≤ 100 := by
      rcases hcases with ⟨-, hsent⟩ | ⟨-, m, -, hsent⟩ <;> rw [hsent, hempty]
      · decide
      · rw [List.nil_append, m.length_bytes]
    simp only [Connection.backlog, Connection.afterServerMsg, hempty, List.length_nil]
    omega

theorem advance_serverRecv (h : Linked s c) (hr : s.Roomy c)
    (hnot : ¬netmsgFraming.Complete s.pClient.recvBuff.bytes) (hup : s.up ≠ []) :
    s.Advances nMsg nSendSleep c := by
  have hlt := h.up.length_lt netmsgFraming IsLogin.isFrame (by decide)
    (fun i f hf => hf.length) hnot
  have hsize := hr.serverRecv
  obtain ⟨k, b, hk, hle, hrecv, -, -, hbytes⟩ :=
    CELLClient.recvData_take h.serverRecv hup (by omega)
  refine ⟨.serverRecvData s.up.length, s.afterServerRecv (k, { s.pClient with recvBuff := b }), c,
    rfl, ?_, h.client, ?_, rfl⟩
  · rw [Connection.step, hrecv]
    rfl
  · have hlen := congrArg List.length hbytes
    rw [List.length_append, List.length_take] at hlen
    simp only [Connection.backlog, Connection.afterServerRecv, Int.toNat_natCast, List.length_drop]
    omega

theorem advance_clientSend (h : Linked s c) (hr : s.Roomy c) (hsend : c.sendBuff.bytes ≠ []) :
    s.Advances nMsg nSendSleep c := by
  obtain ⟨b, hs, hnil⟩ := CELLClient.sendDataReal_all h.clientSend hsend hr.clientSock
  have hpos := List.length_pos_iff.mpr hsend
  refine ⟨.clientSendDataReal (.accept c.sendBuff.bytes.length), s.afterClientSend
    (c.sendBuff.bytes.length, c.sendBuff.bytes, s.client.setClient
      { c with dtSend := 0, sendBuff := b }), { c with dtSend := 0, sendBuff := b }, rfl, ?_, rfl,
    ?_, rfl⟩
  · rw [Connection.step, EasyTcpClient.sendDataReal, h.deref, Fallible.ok_bind, hs]
    rfl
  · simp only [Connection.backlog, Connection.afterClientSend, hnil, List.length_append,
      List.length_nil]
    omega

/-- While bytes are under way, some call advances. -/
theorem advance (h : Linked s c) (hr : s.Roomy c) (hpos : 0 < s.backlog c) :
    s.Advances nMsg nSendSleep c := by
  by_cases hclient : netmsgFraming.Complete c.recvBuff.bytes
  · exact h.advance_clientDispatch hclient
  by_cases hdown : s.down = []
  swap
  · exact h.advance_clientRecv hr hclient hdown
  by_cases hsend : s.pClient.sendBuff.bytes = []
  swap
  · exact h.advance_serverSend hr hsend
  by_cases hserver : netmsgFraming.Complete s.pClient.recvBuff.bytes
  · exact h.advance_serverDispatch hserver hsend
  by_cases hup : s.up = []
  swap
  · exact h.advance_serverRecv hr hserver hup
  by_cases hqueue : c.sendBuff.bytes = []
  swap
  · exact h.advance_clientSend hr hqueue
  -- nothing is on the way or queued, so nothing is left in the receive buffers
  have hdone := h.down
  rw [hdown, hsend] at hdone
  have hdone' := h.up
  rw [hup, hqueue] at hdone'
  have hnil := (hdone.arrived_cases netmsgFraming IsLoginR.isFrame).resolve_left hclient
  have hnil' := (hdone'.arrived_cases netmsgFraming IsLogin.isFrame).resolve_left hserver
  rw [Connection.backlog, hnil, hnil', hdown, hsend, hup, hqueue] at hpos
  cases hpos

/-- Calls that send no new login bring the backlog down to nothing. -/
theorem drain (h : Linked s c) (hr : s.Roomy c) : ∃ tr t c',
    (connection nMsg nSendSleep).Run s tr t ∧ (∀ x ∈ tr, x.2.isSendTest = false) ∧ Linked t c' ∧
    t.backlog c' = 0 ∧ t.client.derived.nSendMsgID = s.client.derived.nSendMsgID := by
  induction hn : s.backlog c using Nat.strong_induction_on generalizing s c with
  | _ n ih =>
    rcases Nat.eq_zero_or_pos n with hzero | hpos
    · exact ⟨[], s, c, .nil s, List.forall_mem_nil _, h, hn.trans hzero, rfl⟩
    obtain ⟨a, u, d, ha, hstep, hd, hlt, hid⟩ := h.advance hr (hn ▸ hpos)
    obtain ⟨hc, hs⟩ := h.shape_step hstep hd
    obtain ⟨tr, t, c', hrun, hnone, hlinked, hzero, hid'⟩ :=
      ih (u.backlog d) (hn ▸ hlt) (h.of_step hstep hd) (hr.of_shape hc hs) rfl
    refine ⟨(s, a) :: tr, t, c', hrun.cons hstep.symm, ?_, hlinked, hzero, hid'.trans hid⟩
    exact List.forall_mem_cons.mpr ⟨ha, hnone⟩

/-- Any calls keep the connection linked and its buffers roomy. -/
theorem roomy_run {tr : List (Connection × ConnectionAct)}
    (hrun : (connection nMsg nSendSleep).Run s tr t) (h : ∃ c, Linked s c ∧ s.Roomy c) :
    ∃ c, Linked t c ∧ t.Roomy c := by
  refine hrun.invariant (I := fun s => ∃ c, Linked s c ∧ s.Roomy c) ?_ h
  rintro s a t ⟨c, hc, hr⟩ hstep
  obtain ⟨c', hc'⟩ := hc.step hstep.symm
  obtain ⟨hshape, hshape'⟩ := hc.shape_step hstep.symm hc'.client
  exact ⟨c', hc', hr.of_shape hshape hshape'⟩

end Linked

theorem Connection.roomy_new {fd fd' : SOCKET} {cs cr ss sr : ℤ} {mem : ℕ → ℕ → UInt8}
    {counts : NetCounts} {bSendFull : Bool} (hfd : INVALID_SOCKET ≠ fd)
    (hfd' : INVALID_SOCKET ≠ fd') (hcr : 100 ≤ cr) (hsr : 100 ≤ sr) {c : CELLClient}
    (hc : (Connection.new fd fd' cs cr ss sr mem counts bSendFull).client.pClient = some c) :
    (Connection.new fd fd' cs cr ss sr mem counts bSendFull).Roomy c := by
  obtain rfl := Option.some.inj hc
  exact ⟨hcr, hfd, hsr, hfd'⟩

/-- A connection can always be drained. From every state that calls reach on a new
connection with open sockets and buffers of at least 100 bytes, where both sides check the
message ids and the server answers, calls that send no new login take every byte to its
handler, and then each side expects the id that the other gives next. `RecvData` of the
client is a run of such calls. -/
theorem connection_drains (nMsg nSendSleep : ℤ) {fd fd' : SOCKET} {cs cr ss sr : ℤ}
    {mem : ℕ → ℕ → UInt8} {counts : NetCounts} {bSendFull : Bool} (hfd : INVALID_SOCKET ≠ fd)
    (hfd' : INVALID_SOCKET ≠ fd') (hsizes : ∀ n ∈ [cs, cr, ss, sr], 100 ≤ n ∧ n < 2147483648)
    {tr : List (Connection × ConnectionAct)} {s : Connection}
    (h : (connection nMsg nSendSleep).Run (.new fd fd' cs cr ss sr mem counts bSendFull) tr s) :
    (∃ tr' t c, (connection nMsg nSendSleep).Run s tr' t ∧
      (∀ x ∈ tr', x.2.isSendTest = false) ∧ t.client.pClient = some c ∧
      (c.sendBuff.bytes = [] ∧ t.up = [] ∧ t.pClient.recvBuff.bytes = []) ∧
      (t.pClient.sendBuff.bytes = [] ∧ t.down = [] ∧ c.recvBuff.bytes = []) ∧
      t.pClient.nRecvMsgID = s.client.derived.nSendMsgID ∧
      t.client.derived.nSendMsgID = s.client.derived.nSendMsgID ∧
      t.client.derived.nRecvMsgID = t.pClient.nSendMsgID ∧
      NoMismatch t.server.log ∧ NoMismatch t.client.derived.log) ∧
    ∀ k n ret e, s.client.recvData MyClient.onNetMsg n (.avail (s.down.take k)) =
      some (.ok (ret, e)) → ∃ tr', (connection nMsg nSendSleep).Run s tr'
        (s.afterClientRecv (ret, e)) := by
  refine ⟨?_, fun k n ret e hrecv => recvData_run nMsg nSendSleep s k n hrecv⟩
  have hinit : (connection nMsg nSendSleep).init
      (.new fd fd' cs cr ss sr mem counts bSendFull) :=
    ⟨fd, fd', cs, cr, ss, sr, mem, counts, bSendFull, hsizes, rfl⟩
  obtain ⟨c₀, hc₀⟩ := Linked.init hinit
  have hr₀ := Connection.roomy_new hfd hfd' (hsizes cr (by simp)).1 (hsizes sr (by simp)).1
    hc₀.client
  obtain ⟨c₁, hc₁, hr⟩ := Linked.roomy_run h ⟨c₀, hc₀, hr₀⟩
  obtain ⟨tr', t, c, hrun, hnone, hc, hzero, hid⟩ := hc₁.drain hr
  obtain ⟨hq, hup, harr, hq', hdown, harr'⟩ : c.sendBuff.bytes = [] ∧ t.up = [] ∧
      t.pClient.recvBuff.bytes = [] ∧ t.pClient.sendBuff.bytes = [] ∧ t.down = [] ∧
      c.recvBuff.bytes = [] := by
    rw [Connection.backlog] at hzero
    simp only [← List.length_eq_zero_iff]
    omega
  have htransit := hc.up
  rw [hq, hup, harr] at htransit
  have htransit' := hc.down
  rw [hq', hdown, harr'] at htransit'
  have hid' :=
    htransit.number_eq fun i f hf => List.ne_nil_of_length_pos (by rw [hf.length]; decide)
  have hid'' :=
    htransit'.number_eq fun i f hf => List.ne_nil_of_length_pos (by rw [hf.length]; decide)
  exact ⟨tr', t, c, hrun, hnone, hc.client, ⟨hq, hup, harr⟩, ⟨hq', hdown, harr'⟩, hid'.trans hid,
    hid, hid'', hc.serverQuiet, hc.clientQuiet⟩

/-- One login on its way in two pieces. -/
theorem connection_drains_login : ∃ s tr' t, (connection 1 100).Run s tr' t ∧
    (s.client.derived.nSendMsgID, s.up.length) = (2, 40) ∧ t.pClient.nRecvMsgID = 2 ∧
    t.up = [] := by
  let login : NetmsgLogin := ⟨.replicate 32 0, .replicate 32 0, .replicate 28 0, 0⟩
  let calls : List ConnectionAct := [.checkSend 100, .sendTest login,
    .clientSendDataReal (.accept 60), .serverRecvData 20]
  have heval : ((calls.foldlM (fun s a => (Connection.step 1 100 s a).toOption)
      (.new 3 5 100 100 100 100 (fun _ _ => 0) .zero false)).map fun s =>
        (s.client.derived.nSendMsgID, s.up.length)) = some (2, 40) := by
    decide +kernel
  obtain ⟨tr, s, hrun, -, hids⟩ := Machine.Run.of_foldlM_map (M := connection 1 100)
    (fun _ _ _ h => (Exec.toOption_eq_some.mp h).symm) heval
  obtain ⟨⟨tr', t, c, hrun', -, -, ⟨-, hup, -⟩, -, hid, -⟩, -⟩ :=
    connection_drains 1 100 (by decide) (by decide) (by decide) hrun
  exact ⟨s, tr', t, hrun', hids, hid.trans (Prod.mk.inj hids).1, hup⟩

end CellNet
