import CellNet.Logout

/-!
# What handling a message depends on

Two runs of `OnNetMsg` of the server program on one message. The message is at the front of
the receive buffer, so the runs may differ in the bytes behind it, and in what the memory of
a reply struct held before. `Receives` is what they agree on, `Observed` what is compared :
the server with its log, the counters and the queued bytes.

A `netmsg_Login` is read through a cast, whatever its length is, and of the 100 bytes of the
`netmsg_LoginR` that is sent back 88 are never assigned. `handling_depends_iff` : these are
the only cases in which a run depends on more than the message.
-/

namespace CellNet

/-- What is observed of a run. -/
structure Observed where
  server : MyServer
  nRecvMsgID : ℤ
  nSendMsgID : ℤ
  queued : List UInt8

/-- A client in the state of `c`, as far as the handler looks at it, that has received the
message `m`. -/
structure CELLClient.Receives (c : CELLClient) (m : List UInt8) (c' : CELLClient) : Prop where
  sockfd : c'.sockfd = c.sockfd
  nRecvMsgID : c'.nRecvMsgID = c.nRecvMsgID
  nSendMsgID : c'.nSendMsgID = c.nSendMsgID
  sendBuff : c'.sendBuff = c.sendBuff
  recvBuff : c'.recvBuff.WF
  front : m <+: c'.recvBuff.bytes

namespace MyServer

/-- `OnNetMsg` on the front of the receive buffer. -/
def observe (s : MyServer) (c : CELLClient) (mem : ℕ → UInt8) : Exec Observed := do
  let (s, c) ← s.onNetMsg c c.frontMsg mem
  return ⟨s, c.nRecvMsgID, c.nSendMsgID, c.sendBuff.bytes⟩

/-- Handling the message depends on the message only. -/
def DependsOnMessage (s : MyServer) (c : CELLClient) (m : List UInt8) : Prop :=
  ∀ c₁ c₂ mem₁ mem₂, c.Receives m c₁ → c.Receives m c₂ → s.observe c₁ mem₁ = s.observe c₂ mem₂

/-- A login is not answered, or there is no room for the answer; and its id is not looked
at, or the message has all bytes of a `netmsg_Login`, or the answer overflows the length of
the send buffer anyway. -/
def LoginCovered (s : MyServer) (c : CELLClient) (m : List UInt8) : Prop :=
  (s.bSendBack = true → c.sendBuff.nSize < c.sendBuff.nLast + 100) ∧
  (s.bCheckMsgID = true → 100 ≤ m.length ∨
    s.bSendBack = true ∧ 2147483648 ≤ c.sendBuff.nLast + 100)

/-! ## The handler, on what is observed -/

/-- The check of the id, with the next id to expect. -/
def checked (s : MyServer) (sockfd : SOCKET) (nRecvMsgID : ℤ) (login : List UInt8) :
    Exec (MyServer × ℤ) :=
  if s.bCheckMsgID then do
    let id ← msgID login
    let s := if id ≠ nRecvMsgID then
        s.logged (.msgIDMismatch sockfd id nRecvMsgID (int32 (id - nRecvMsgID)))
      else s
    return (s, int32 (nRecvMsgID + 1))
  else
    return (s, nRecvMsgID)

/-- The answer, with the server and the id the check has left. -/
def answered (sockfd : SOCKET) (nSendMsgID : ℤ) (sendBuff : CELLBuffer) (mem : ℕ → UInt8)
    (s : MyServer) (nRecvMsgID : ℤ) : Exec Observed :=
  if s.bSendBack then do
    let (ok, b) ← sendBuff.push (NetmsgLoginR.bytes ⟨0, Vector.ofFn fun i => mem i, nSendMsgID⟩) 100
    if ok then
      return ⟨s, nRecvMsgID, int32 (nSendMsgID + 1), b.bytes⟩
    else
      return ⟨if s.bSendFull then s.logged (.sendFull sockfd) else s, nRecvMsgID, nSendMsgID,
        b.bytes⟩
  else
    return ⟨s, nRecvMsgID, nSendMsgID, sendBuff.bytes⟩

variable {s : MyServer} {c c₁ c₂ : CELLClient} {m rest : List UInt8} {mem : ℕ → UInt8}

/-- What the answer makes of a client. -/
theorem sendBack_observed (s : MyServer) (c : CELLClient) (mem : ℕ → UInt8) :
    (do
      let (s, c) ← s.sendBack c mem
      return (⟨s, c.nRecvMsgID, c.nSendMsgID, c.sendBuff.bytes⟩ : Observed)) =
      answered c.sockfd c.nSendMsgID c.sendBuff mem s c.nRecvMsgID := by
  unfold sendBack answered
  split
  · have h100 : ∀ id, CELLClient.sendDataHeader c
        (NetmsgLoginR.bytes ⟨0, Vector.ofFn fun i => mem i, id⟩) =
          c.sendData (NetmsgLoginR.bytes ⟨0, Vector.ofFn fun i => mem i, id⟩) 100 := fun id => by
      rw [CELLClient.sendDataHeader, dataLength_eq (by rw [NetmsgLoginR.length_bytes]; decide),
        (NetmsgLoginR.header_bytes _).1, NetmsgLoginR.length_bytes]
      rfl
    simp only [h100, CELLClient.sendData]
    cases c.sendBuff.push
        (NetmsgLoginR.bytes ⟨0, Vector.ofFn fun i => mem i, c.nSendMsgID⟩) 100 with
    | error e => rfl
    | ok x =>
      obtain ⟨ok, b⟩ := x
      cases ok
      · rfl
      · rfl
  · rfl

theorem observe_login (hcmd : cmd c.frontMsg = .ok CMD.login.code) : s.observe c mem =
    ({ s with counts := s.counts.onNetMsg }.checked c.sockfd c.nRecvMsgID c.frontMsg >>=
      fun x => answered c.sockfd c.nSendMsgID c.sendBuff mem x.1 x.2) := by
  rw [observe, onNetMsg, hcmd, Fallible.ok_bind, CMD.ofCode_code]
  simp only [onLogin, checkMsgID, checked]
  split
  · cases msgID c.frontMsg with
    | error e => rfl
    | ok id => exact sendBack_observed _ _ mem
  · exact sendBack_observed _ _ mem

theorem observe_logout (h4 : 4 ≤ m.length) (hm : headerLen m = m.length)
    (hcmd : cmd m = .ok CMD.logout.code) (hfront : c.frontMsg = m ++ rest) :
    s.observe c mem = (do
      let reply := (takeLogout m).value.reply
      let (_, b) ← c.sendBuff.push reply reply.length
      return ⟨{ s with counts := s.counts.onNetMsg, log := s.log ++ logoutLog m }, c.nRecvMsgID,
        c.nSendMsgID, b.bytes⟩) := by
  rw [observe, hfront, onNetMsg_logout h4 hm hcmd]
  simp only [CELLClient.sendData, CELLClient.resetDTHeart]
  cases c.sendBuff.push (takeLogout m).value.reply (takeLogout m).value.reply.length with
  | error e => rfl
  | ok x =>
    obtain ⟨ok, b⟩ := x
    cases ok
    · rfl
    · rfl

theorem observe_heart (h4 : 4 ≤ m.length) (hcmd : cmd m = .ok CMD.c2sHeart.code)
    (hfront : c.frontMsg = m ++ rest) : s.observe c mem = (do
      let (_, b) ← c.sendBuff.push netmsgS2cHeartBytes 4
      return ⟨{ s with counts := s.counts.onNetMsg }.logged
          (.serverUndefineMsgType c.sockfd (headerLen m)),
        c.nRecvMsgID, c.nSendMsgID, b.bytes⟩) := by
  have hlength : dataLength (m ++ rest) = .ok (headerLen m) := by
    rw [dataLength_eq (by rw [List.length_append]; omega), headerLen_append (by omega)]
  have hheart : dataLength netmsgS2cHeartBytes = .ok 4 := by rfl
  rw [observe, hfront, onNetMsg, cmd_append h4, hcmd, Fallible.ok_bind, CMD.ofCode_code]
  simp only [onHeart, onUndefine, CELLClient.sendDataHeader, hheart, hlength, Fallible.ok_bind,
    CELLClient.sendData, CELLClient.resetDTHeart, Nat.cast_ofNat]
  cases c.sendBuff.push netmsgS2cHeartBytes 4 with
  | error e => rfl
  | ok x =>
    obtain ⟨ok, b⟩ := x
    cases ok
    · rfl
    · rfl

theorem observe_undefine (h4 : 4 ≤ m.length) {code : ℕ} (hcmd : cmd m = .ok code)
    (hcode : CMD.ofCode code ≠ some .login ∧ CMD.ofCode code ≠ some .logout ∧
      CMD.ofCode code ≠ some .c2sHeart) (hfront : c.frontMsg = m ++ rest) :
    s.observe c mem = .ok ⟨{ s with counts := s.counts.onNetMsg }.logged
      (.serverUndefineMsgType c.sockfd (headerLen m)), c.nRecvMsgID, c.nSendMsgID,
        c.sendBuff.bytes⟩ := by
  have hlength : dataLength (m ++ rest) = .ok (headerLen m) := by
    rw [dataLength_eq (by rw [List.length_append]; omega), headerLen_append (by omega)]
  have hundefine : s.onNetMsg c (m ++ rest) mem =
      { s with counts := s.counts.onNetMsg }.onUndefine c (m ++ rest) := by
    rw [onNetMsg, cmd_append h4, hcmd, Fallible.ok_bind]
    split
    · exact absurd ‹_› hcode.1
    · exact absurd ‹_› hcode.2.1
    · exact absurd ‹_› hcode.2.2
    · rfl
  rw [observe, hfront, hundefine, onUndefine, hlength]
  rfl

/-! ## Two runs -/

/-- The message is at the front of the block the handler reads. -/
theorem Receives.frontMsg (h : c.Receives m c₁) : ∃ rest, c₁.frontMsg = m ++ rest := by
  obtain ⟨zs, hzs⟩ := CELLClient.frontMsg_eq h.recvBuff
  obtain ⟨ys, hys⟩ := h.front
  exact ⟨ys ++ zs, by rw [hzs, ← hys, List.append_assoc]⟩

/-- Any command but `CMD_LOGIN` is handled by the message. -/
theorem observe_eq_of_ne_login (h4 : 4 ≤ m.length) (hm : headerLen m = m.length)
    (hlogin : cmd m ≠ .ok CMD.login.code) (h₁ : c.Receives m c₁) (h₂ : c.Receives m c₂)
    (mem₁ mem₂ : ℕ → UInt8) : s.observe c₁ mem₁ = s.observe c₂ mem₂ := by
  obtain ⟨rest₁, hfront₁⟩ := Receives.frontMsg h₁
  obtain ⟨rest₂, hfront₂⟩ := Receives.frontMsg h₂
  obtain ⟨code, hcode⟩ : ∃ code, cmd m = .ok code := ⟨_, cmd_eq h4⟩
  by_cases hlogout : CMD.ofCode code = some .logout
  · obtain rfl := CMD.eq_code_of_ofCode hlogout
    rw [observe_logout h4 hm hcode hfront₁, observe_logout h4 hm hcode hfront₂, h₁.sendBuff,
      h₂.sendBuff, h₁.nRecvMsgID, h₂.nRecvMsgID, h₁.nSendMsgID, h₂.nSendMsgID]
  by_cases hheart : CMD.ofCode code = some .c2sHeart
  · obtain rfl := CMD.eq_code_of_ofCode hheart
    rw [observe_heart h4 hcode hfront₁, observe_heart h4 hcode hfront₂, h₁.sendBuff,
      h₂.sendBuff, h₁.nRecvMsgID, h₂.nRecvMsgID, h₁.nSendMsgID, h₂.nSendMsgID, h₁.sockfd,
      h₂.sockfd]
  · have hother : CMD.ofCode code ≠ some .login ∧ CMD.ofCode code ≠ some .logout ∧
        CMD.ofCode code ≠ some .c2sHeart :=
      ⟨fun h => hlogin (CMD.eq_code_of_ofCode h ▸ hcode), hlogout, hheart⟩
    rw [observe_undefine h4 hcode hother hfront₁, observe_undefine h4 hcode hother hfront₂,
      h₁.sendBuff, h₂.sendBuff, h₁.nRecvMsgID, h₂.nRecvMsgID, h₁.nSendMsgID, h₂.nSendMsgID,
      h₁.sockfd, h₂.sockfd]

/-- Without room the answer does not matter. -/
theorem answered_eq_of_full {sockfd : SOCKET} {nSendMsgID nRecvMsgID : ℤ} {b : CELLBuffer}
    (hb : b.WF) (hfull : s.bSendBack = true → b.nSize < b.nLast + 100) (mem₁ mem₂ : ℕ → UInt8) :
    answered sockfd nSendMsgID b mem₁ s nRecvMsgID =
      answered sockfd nSendMsgID b mem₂ s nRecvMsgID := by
  unfold answered
  split
  · have hpush : b.push (NetmsgLoginR.bytes ⟨0, Vector.ofFn fun i => mem₁ i, nSendMsgID⟩) 100 =
        b.push (NetmsgLoginR.bytes ⟨0, Vector.ofFn fun i => mem₂ i, nSendMsgID⟩) 100 := by
      by_cases hov : b.nLast + 100 < 2147483648
      · rw [hb.push_of_not_fits (by decide) hov (hfull ‹_›),
          hb.push_of_not_fits (by decide) hov (hfull ‹_›)]
      · rw [hb.push_of_overflow (by simp) (by decide) (by omega),
          hb.push_of_overflow (by simp) (by decide) (by omega)]
    rw [hpush]
  · rfl

/-- With room it does. -/
theorem answered_of_room {sockfd : SOCKET} {nSendMsgID nRecvMsgID : ℤ} {b : CELLBuffer}
    (hb : b.WF) (hback : s.bSendBack = true) (hroom : b.nLast + 100 ≤ b.nSize) (mem : ℕ → UInt8) :
    answered sockfd nSendMsgID b mem s nRecvMsgID = .ok ⟨s, nRecvMsgID, int32 (nSendMsgID + 1),
      b.bytes ++ NetmsgLoginR.bytes ⟨0, Vector.ofFn fun i => mem i, nSendMsgID⟩⟩ := by
  let reply := NetmsgLoginR.bytes ⟨0, Vector.ofFn fun i => mem i, nSendMsgID⟩
  have hlength : (100 : ℤ) ≤ reply.length := by simp [reply]
  obtain ⟨b', hpush, -, -, hbytes⟩ := hb.push_of_fits (by decide) hlength hroom
  rw [List.take_of_length_le (by simp [reply])] at hbytes
  rw [answered, if_pos hback, hpush]
  simp only [Fallible.ok_bind, if_true, hbytes]
  rfl

/-- The answer returns, unless its end is no `int`. -/
theorem answered_ok (s : MyServer) (sockfd : SOCKET) (nSendMsgID nRecvMsgID : ℤ) {b : CELLBuffer}
    (hb : b.WF) (hint : s.bSendBack = true → b.nLast + 100 < 2147483648) (mem : ℕ → UInt8) :
    ∃ o, answered sockfd nSendMsgID b mem s nRecvMsgID = .ok o := by
  by_cases hback : s.bSendBack = true
  · by_cases hroom : b.nLast + 100 ≤ b.nSize
    · exact ⟨_, answered_of_room hb hback hroom mem⟩
    · rw [answered, if_pos hback, hb.push_of_not_fits (by decide) (hint hback) (by omega)]
      exact ⟨_, rfl⟩
  · rw [answered, if_neg hback]
    exact ⟨_, rfl⟩

/-- The check returns, if it stays in the block. -/
theorem checked_ok (sockfd : SOCKET) (nRecvMsgID : ℤ) (login : List UInt8)
    (hlen : s.bCheckMsgID = true → 100 ≤ login.length) : ∃ s₁ n,
      s.checked sockfd nRecvMsgID login = .ok (s₁, n) ∧ s₁.bSendBack = s.bSendBack := by
  by_cases hcheck : s.bCheckMsgID = true
  · rw [checked, if_pos hcheck, msgID_of_le (hlen hcheck), Fallible.ok_bind]
    dsimp only
    split
    · exact ⟨_, _, rfl, rfl⟩
    · exact ⟨_, _, rfl, rfl⟩
  · rw [checked, if_neg hcheck]
    exact ⟨_, _, rfl, rfl⟩

/-- With an answer that overflows the login is undefined, whatever its id. -/
theorem login_error_of_overflow {sockfd : SOCKET} {nSendMsgID nRecvMsgID : ℤ} {b : CELLBuffer}
    (hb : b.WF) (hback : s.bSendBack = true) (hov : 2147483648 ≤ b.nLast + 100)
    (login : List UInt8) (mem : ℕ → UInt8) : (s.checked sockfd nRecvMsgID login >>=
      fun x => answered sockfd nSendMsgID b mem x.1 x.2) = .error .outOfBounds := by
  by_cases hlen : s.bCheckMsgID = true → 100 ≤ login.length
  · obtain ⟨s₁, n, hchecked, hback₁⟩ := s.checked_ok sockfd nRecvMsgID login hlen
    rw [hchecked, Fallible.ok_bind, answered, if_pos (hback₁.trans hback),
      hb.push_of_overflow (by simp) (by decide) hov]
    rfl
  · obtain ⟨hcheck, hshort⟩ := Classical.not_imp.mp hlen
    rw [checked, if_pos hcheck, msgID_of_lt (by omega)]
    rfl

/-- A login that is covered is handled by the message. -/
theorem observe_login_eq (hc : c.sendBuff.WF) (hlogin : cmd m = .ok CMD.login.code)
    (h4 : 4 ≤ m.length) (hcovered : s.LoginCovered c m) (h₁ : c.Receives m c₁)
    (h₂ : c.Receives m c₂) (mem₁ mem₂ : ℕ → UInt8) : s.observe c₁ mem₁ = s.observe c₂ mem₂ := by
  obtain ⟨hback, hcheck⟩ := hcovered
  obtain ⟨rest₁, hfront₁⟩ := Receives.frontMsg h₁
  obtain ⟨rest₂, hfront₂⟩ := Receives.frontMsg h₂
  rw [observe_login (by rw [hfront₁, cmd_append h4, hlogin]),
    observe_login (by rw [hfront₂, cmd_append h4, hlogin]), hfront₁, hfront₂, h₁.sendBuff,
    h₂.sendBuff, h₁.nRecvMsgID, h₂.nRecvMsgID, h₁.nSendMsgID, h₂.nSendMsgID, h₁.sockfd, h₂.sockfd]
  by_cases hov : s.bSendBack = true ∧ 2147483648 ≤ c.sendBuff.nLast + 100
  · have hback' : { s with counts := s.counts.onNetMsg }.bSendBack = true := hov.1
    rw [login_error_of_overflow hc hback' hov.2, login_error_of_overflow hc hback' hov.2]
  · have hlen : s.bCheckMsgID = true → 100 ≤ m.length := fun h => (hcheck h).resolve_right hov
    have hread : { s with counts := s.counts.onNetMsg }.checked c.sockfd c.nRecvMsgID (m ++ rest₁) =
        { s with counts := s.counts.onNetMsg }.checked c.sockfd c.nRecvMsgID (m ++ rest₂) := by
      unfold checked
      split
      · rw [msgID_append (hlen ‹_›), msgID_append (hlen ‹_›)]
      · rfl
    obtain ⟨s₁, n, hchecked, hback₁⟩ :=
      { s with counts := s.counts.onNetMsg }.checked_ok c.sockfd c.nRecvMsgID (m ++ rest₂)
        fun h => by
          have := hlen h
          rw [List.length_append]
          omega
    rw [hread, hchecked, Fallible.ok_bind, Fallible.ok_bind]
    exact answered_eq_of_full hc (fun h => hback (hback₁.symm.trans h)) mem₁ mem₂

/-- A client that has received `m`, with `rest` behind it in its buffer. -/
def receiving (c : CELLClient) (m rest : List UInt8) : CELLClient :=
  { c with recvBuff := ⟨m ++ rest, m.length, (m ++ rest).length, 0⟩ }

theorem receives_receiving (hlen : (m ++ rest).length < 2147483648) :
    c.Receives m (receiving c m rest) where
  sockfd := rfl
  nRecvMsgID := rfl
  nSendMsgID := rfl
  sendBuff := rfl
  recvBuff := ⟨rfl, Int.natCast_nonneg _, by simp [receiving], by simp only [receiving]; omega⟩
  front := by simp [receiving, CELLBuffer.bytes]

/-- An answer for which there is room shows the memory it was built in. -/
theorem DependsOnMessage.full (hc : c.sendBuff.WF) (h4 : 4 ≤ m.length) (hlen : m.length < 65536)
    (hlogin : cmd m = .ok CMD.login.code) (h : s.DependsOnMessage c m)
    (hback : s.bSendBack = true) : c.sendBuff.nSize < c.sendBuff.nLast + 100 := by
  by_contra hroom
  have hrest : (m ++ List.replicate 100 0).length < 2147483648 := by
    rw [List.length_append, List.length_replicate]
    omega
  have hsame := h _ _ (fun _ => 0) (fun _ => 1) (receives_receiving hrest)
    (receives_receiving hrest)
  obtain ⟨s₁, n, hchecked, hback₁⟩ := { s with counts := s.counts.onNetMsg }.checked_ok
    c.sockfd c.nRecvMsgID (m ++ List.replicate 100 0)
    fun _ => by rw [List.length_append, List.length_replicate]; omega
  have hfront : (receiving c m (List.replicate 100 0)).frontMsg = m ++ List.replicate 100 0 := rfl
  rw [observe_login (by rw [hfront, cmd_append h4, hlogin]),
    observe_login (by rw [hfront, cmd_append h4, hlogin]), hfront] at hsame
  simp only [receiving, hchecked, Fallible.ok_bind] at hsame
  rw [answered_of_room hc (hback₁.trans hback) (by omega),
    answered_of_room hc (hback₁.trans hback) (by omega)] at hsame
  have hbytes := List.append_cancel_left (congrArg Observed.queued (Except.ok.inj hsame))
  have hdata := congrArg (fun v : Vector UInt8 88 => v[0]) (NetmsgLoginR.data_inj hbytes)
  simp at hdata

/-- A login that is shorter than its struct is looked at beyond its end. -/
theorem DependsOnMessage.checked (hc : c.sendBuff.WF) (h4 : 4 ≤ m.length)
    (hlen : m.length < 65536) (hlogin : cmd m = .ok CMD.login.code) (h : s.DependsOnMessage c m)
    (hcheck : s.bCheckMsgID = true) : 100 ≤ m.length ∨
      s.bSendBack = true ∧ 2147483648 ≤ c.sendBuff.nLast + 100 := by
  by_contra hnot
  obtain ⟨hshort, hint⟩ := not_or.mp hnot
  have hrest : (m ++ List.replicate 100 0).length < 2147483648 := by
    rw [List.length_append, List.length_replicate]
    omega
  -- a message that ends where its buffer ends, and one that does not
  have hends : (m ++ []).length < 2147483648 := by
    rw [List.append_nil]
    omega
  have hsame := h _ _ (fun _ => 0) (fun _ => 0) (receives_receiving hends)
    (receives_receiving hrest)
  obtain ⟨s₁, n, hchecked, hback₁⟩ := { s with counts := s.counts.onNetMsg }.checked_ok
    c.sockfd c.nRecvMsgID (m ++ List.replicate 100 0)
    fun _ => by rw [List.length_append, List.length_replicate]; omega
  have hint₁ : s₁.bSendBack = true → c.sendBuff.nLast + 100 < 2147483648 := fun h => by
    by_contra hov
    exact hint ⟨hback₁.symm.trans h, by omega⟩
  obtain ⟨o, ho⟩ := s₁.answered_ok c.sockfd c.nSendMsgID n hc hint₁ fun _ => 0
  have hfront (rest) : (receiving c m rest).frontMsg = m ++ rest := rfl
  rw [observe_login (by rw [hfront, cmd_append h4, hlogin]),
    observe_login (by rw [hfront, cmd_append h4, hlogin]), hfront, hfront] at hsame
  simp only [receiving, hchecked, Fallible.ok_bind, ho] at hsame
  rw [MyServer.checked, if_pos hcheck, List.append_nil, msgID_of_lt (by omega)] at hsame
  simp at hsame

end MyServer

/-- When handling a message depends on that message only. Whatever the frame and the state
of the server and the client, two runs that differ in the bytes behind the frame and in
what the memory of the reply held log the same lines, end with the same counters and queue
the same bytes, exactly when the frame is no `CMD_LOGIN`, or the login is covered. -/
theorem handling_depends_iff {s : MyServer} {c : CELLClient} {m : List UInt8}
    (hc : c.sendBuff.WF) (h4 : 4 ≤ m.length) (hm : headerLen m = m.length) :
    s.DependsOnMessage c m ↔ (cmd m = .ok CMD.login.code → s.LoginCovered c m) := by
  have hlen : m.length < 65536 := hm ▸ headerLen_lt m
  constructor
  · intro h hlogin
    exact ⟨h.full hc h4 hlen hlogin, h.checked hc h4 hlen hlogin⟩
  · intro hcovered c₁ c₂ mem₁ mem₂ h₁ h₂
    by_cases hlogin : cmd m = .ok CMD.login.code
    · exact MyServer.observe_login_eq hc hlogin h4 (hcovered hlogin) h₁ h₂ mem₁ mem₂
    · exact MyServer.observe_eq_of_ne_login h4 hm hlogin h₁ h₂ mem₁ mem₂

/-- A `netmsg_Login` of zeros. -/
def zeroLogin : NetmsgLogin :=
  ⟨.replicate _ 0, .replicate _ 0, .replicate _ 0, 0⟩

/-- With `-sendback` the answer to a login shows what the memory held. -/
theorem not_handling_depends : ¬∀ (s : MyServer) (c : CELLClient) (m : List UInt8),
    c.sendBuff.WF → 4 ≤ m.length → headerLen m = m.length → s.DependsOnMessage c m := by
  intro hall
  have hc : (CELLClient.new 3 10240 10240 (fun _ => 0) fun _ => 0).sendBuff.WF :=
    CELLBuffer.new_wf (by decide) (by decide) _
  have hlen : 4 ≤ zeroLogin.bytes.length := by
    rw [NetmsgLogin.length_bytes]
    decide
  have hcmd := zeroLogin.header_bytes.2.2 []
  rw [List.append_nil] at hcmd
  have hfull := (hall ⟨.zero, true, false, false, []⟩ _ _ hc hlen zeroLogin.header_bytes.1).full hc
    hlen (by rw [NetmsgLogin.length_bytes]; decide) hcmd rfl
  exact absurd hfull (by decide)

/-- Without it the id of a login is checked by the message. -/
theorem handling_depends_iff_checked : MyServer.DependsOnMessage ⟨.zero, false, false, true, []⟩
    (.new 3 10240 10240 (fun _ => 0) fun _ => 0) zeroLogin.bytes := by
  refine (handling_depends_iff (CELLBuffer.new_wf (by decide) (by decide) _) ?_
    zeroLogin.header_bytes.1).mpr fun _ => ⟨by simp, fun _ => Or.inl ?_⟩
  · rw [NetmsgLogin.length_bytes]
    decide
  · rw [NetmsgLogin.length_bytes]

end CellNet
