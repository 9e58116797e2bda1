import CellNet.Buffer
import CellNet.Machine

/-!
# The connection object

`CELLClient` : a socket, its receive buffer and its send buffer, the two message
counters, and the two timers. The server and the client program both own such objects.

Both also run the same loop over it, `while (hasMsg()) { OnNetMsg(front_msg());
pop_front_msg(); }` : `drainLoop` is that loop for any owner, given how the owner
reaches the client, what its `OnNetMsg` does, and how it pops.
-/

namespace CellNet

/-- `CLIENT_HREAT_DEAD_TIME`. -/
def CLIENT_HREAT_DEAD_TIME : ℤ :=
  60000

/-- `CLIENT_SEND_BUFF_TIME`. -/
def CLIENT_SEND_BUFF_TIME : ℤ :=
  200

/-- A `CELLClient`. -/
structure CELLClient where
  serverId : ℤ
  /-- The id the next checked message must have. -/
  nRecvMsgID : ℤ
  /-- The id of the next message to send. -/
  nSendMsgID : ℤ
  sockfd : SOCKET
  recvBuff : CELLBuffer
  sendBuff : CELLBuffer
  /-- The time without a sign of life. -/
  dtHeart : ℤ
  /-- The time since the last send. -/
  dtSend : ℤ
  deriving DecidableEq, Repr

namespace CELLClient

/-- The constructor. The blocks of the two buffers hold what `sendMem` and `recvMem`
held. -/
def new (sockfd : SOCKET) (sendSize recvSize : ℤ) (sendMem recvMem : ℕ → UInt8) :
    CELLClient where
  serverId := -1
  nRecvMsgID := 1
  nSendMsgID := 1
  sockfd := sockfd
  recvBuff := .new recvSize recvMem
  sendBuff := .new sendSize sendMem
  dtHeart := 0
  dtSend := 0

/-- `RecvData`. -/
def recvData (c : CELLClient) (r : RecvResult) : Exec (ℤ × CELLClient) := do
  let (nLen, recvBuff) ← c.recvBuff.read4socket r
  return (nLen, { c with recvBuff })

/-- `hasMsg`. -/
def hasMsg (c : CELLClient) : Exec Bool :=
  c.recvBuff.hasMsg

/-- `front_msg`, a pointer to the front of the receive buffer. -/
def frontMsg (c : CELLClient) : List UInt8 :=
  c.recvBuff.data

/-- `pop_front_msg`. -/
def popFrontMsg (c : CELLClient) : Exec CELLClient := do
  if ← c.hasMsg then
    let n ← dataLength c.frontMsg
    let recvBuff ← c.recvBuff.pop n
    return { c with recvBuff }
  else
    return c

/-- `needWrite`. -/
def needWrite (c : CELLClient) : Bool :=
  c.sendBuff.needWrite

/-- `resetDTHeart`. -/
def resetDTHeart (c : CELLClient) : CELLClient :=
  { c with dtHeart := 0 }

/-- `resetDTSend`. -/
def resetDTSend (c : CELLClient) : CELLClient :=
  { c with dtSend := 0 }

/-- `SendDataReal`, with the bytes the socket accepted. -/
def sendDataReal (c : CELLClient) (r : SendResult) : Exec (ℤ × List UInt8 × CELLClient) := do
  let c := c.resetDTSend
  let (ret, sent, sendBuff) ← c.sendBuff.write2socket c.sockfd r
  return (ret, sent, { c with sendBuff })

/-- `SendData(pData, len)`. -/
def sendData (c : CELLClient) (pData : List UInt8) (len : ℤ) : Exec (ℤ × CELLClient) := do
  let (ok, sendBuff) ← c.sendBuff.push pData len
  if ok then
    return (len, { c with sendBuff })
  else
    return (SOCKET_ERROR, { c with sendBuff })

/-- `SendData(header)`. -/
def sendDataHeader (c : CELLClient) (header : List UInt8) : Exec (ℤ × CELLClient) := do
  let n ← dataLength header
  c.sendData header n

/-- `checkHeart`. -/
def checkHeart (c : CELLClient) (dt : ℤ) : Bool × CELLClient :=
  let dtHeart := c.dtHeart + dt
  (decide (CLIENT_HREAT_DEAD_TIME ≤ dtHeart), { c with dtHeart })

/-- `checkSend`. -/
def checkSend (c : CELLClient) (dt : ℤ) (r : SendResult) :
    Exec (Bool × List UInt8 × CELLClient) := do
  let c := { c with dtSend := c.dtSend + dt }
  if CLIENT_SEND_BUFF_TIME ≤ c.dtSend then
    let (_, sent, c) ← c.sendDataReal r
    return (true, sent, c.resetDTSend)
  else
    return (false, [], c)

@[simp] theorem recvBuff_new (fd : SOCKET) (ss rs : ℤ) (sm rm : ℕ → UInt8) :
    (new fd ss rs sm rm).recvBuff = .new rs rm :=
  rfl

@[simp] theorem sendBuff_new (fd : SOCKET) (ss rs : ℤ) (sm rm : ℕ → UInt8) :
    (new fd ss rs sm rm).sendBuff = .new ss sm :=
  rfl

/-- Both buffers are well formed, and the receive buffer has `nSize` bytes. -/
structure Sized (nSize : ℤ) (c : CELLClient) : Prop where
  recvBuff : c.recvBuff.WF
  size : c.recvBuff.nSize = nSize
  sendBuff : c.sendBuff.WF

/-- `RecvData` appends what it reads. -/
theorem recvData_eq {c : CELLClient} (h : c.recvBuff.WF) (r : RecvResult) : ∃ ret b,
    c.recvData r = .ok (ret, { c with recvBuff := b }) ∧ b.WF ∧ b.nSize = c.recvBuff.nSize ∧
    b.bytes = c.recvBuff.bytes ++ r.data c.recvBuff.free ∧
    ret.toNat = (r.data c.recvBuff.free).length := by
  obtain ⟨ret, b, hr, hwf, hsize, hbytes, hret⟩ := h.read4socket_eq r
  refine ⟨ret, b, ?_, hwf, hsize, hbytes, hret⟩
  simp only [recvData, hr, Fallible.ok_bind, Fallible.pure_eq]

/-- `SendDataReal` takes accepted bytes off the send buffer. -/
theorem sendDataReal_eq {c : CELLClient} (h : c.sendBuff.WF) (r : SendResult) : ∃ ret k b,
    c.sendDataReal r = .ok (ret, c.sendBuff.bytes.take k, { c with dtSend := 0, sendBuff := b }) ∧
    b.WF ∧ b.bytes = c.sendBuff.bytes.drop k := by
  rcases h.write2socket_cases c.sockfd r with hw | hw | ⟨k, b, -, -, hw, hwf, -, hbytes⟩
  · refine ⟨0, 0, c.sendBuff, ?_, h, rfl⟩
    simp only [sendDataReal, resetDTSend, hw, Fallible.ok_bind, Fallible.pure_eq, List.take_zero]
  · refine ⟨SOCKET_ERROR, 0, c.sendBuff, ?_, h, rfl⟩
    simp only [sendDataReal, resetDTSend, hw, Fallible.ok_bind, Fallible.pure_eq, List.take_zero]
  · refine ⟨k, k, b, ?_, hwf, hbytes⟩
    simp only [sendDataReal, resetDTSend, hw, Fallible.ok_bind, Fallible.pure_eq]

/-- `RecvData` touches the receive buffer only. -/
theorem recvData_of_ok {c c' : CELLClient} {r : RecvResult} {n : ℤ}
    (h : c.recvData r = .ok (n, c')) : ∃ b, c' = { c with recvBuff := b } := by
  obtain ⟨⟨m, b⟩, -, h⟩ := Fallible.bind_eq_ok.mp h
  exact ⟨b, (Prod.mk.inj (Except.ok.inj h)).2.symm⟩

/-- `SendDataReal` touches the send buffer and its timer only. -/
theorem sendDataReal_of_ok {c c' : CELLClient} {r : SendResult} {n : ℤ} {sent : List UInt8}
    (h : c.sendDataReal r = .ok (n, sent, c')) :
    ∃ b, c' = { c with dtSend := 0, sendBuff := b } := by
  obtain ⟨⟨m, bs, b⟩, -, h⟩ := Fallible.bind_eq_ok.mp h
  exact ⟨b, (Prod.mk.inj (Prod.mk.inj (Except.ok.inj h)).2).2.symm⟩

/-- There is room to read into, and the socket gives nothing. -/
def RecvFails (c : CELLClient) (r : RecvResult) : Prop :=
  0 < int32 (c.recvBuff.nSize - c.recvBuff.nLast) ∧
    r.data (int32 (c.recvBuff.nSize - c.recvBuff.nLast)) = []

/-- Then, and only then, `RecvData` returns an error. -/
theorem recvData_error_iff {c c' : CELLClient} {r : RecvResult} {n : ℤ}
    (h : c.recvData r = .ok (n, c')) : SOCKET_ERROR = n ↔ c.RecvFails r := by
  obtain ⟨⟨m, b⟩, hr, h⟩ := Fallible.bind_eq_ok.mp h
  obtain rfl : m = n := (Prod.mk.inj (Except.ok.inj h)).1
  unfold CELLBuffer.read4socket at hr
  unfold RecvFails
  split at hr
  · rename_i hroom
    rw [and_iff_right hroom, ← List.length_eq_zero_iff, ← Nat.le_zero]
    dsimp only at hr
    split at hr
    · obtain rfl := (Prod.mk.inj (Except.ok.inj hr)).1
      exact iff_of_true rfl ‹_›
    · rename_i hlen
      obtain ⟨_, -, hr⟩ := Fallible.bind_eq_ok.mp hr
      obtain rfl := (Prod.mk.inj (Except.ok.inj hr)).1
      refine iff_of_false (fun heq => ?_) hlen
      have hneg : SOCKET_ERROR < 0 := by decide
      omega
  · rename_i hroom
    obtain rfl := (Prod.mk.inj (Except.ok.inj hr)).1
    exact iff_of_false (by decide) fun hfails => hroom hfails.1

/-- There is something to send, and the socket takes nothing of it. -/
def SendFails (c : CELLClient) (r : SendResult) : Prop :=
  c.needWrite = true ∧ INVALID_SOCKET ≠ c.sockfd ∧ r.ret c.sendBuff.nLast ≤ 0

/-- Then, and only then, `SendDataReal` returns an error. -/
theorem sendDataReal_error_iff {c c' : CELLClient} {r : SendResult} {n : ℤ} {sent : List UInt8}
    (h : c.sendDataReal r = .ok (n, sent, c')) : SOCKET_ERROR = n ↔ c.SendFails r := by
  have hneed : c.needWrite = true ↔ 0 < c.sendBuff.nLast := by
    simp [needWrite, CELLBuffer.needWrite]
  obtain ⟨⟨m, bs, b⟩, hw, h⟩ := Fallible.bind_eq_ok.mp h
  obtain rfl : m = n := (Prod.mk.inj (Except.ok.inj h)).1
  rw [SendFails, hneed, ← and_assoc]
  change c.sendBuff.write2socket c.sockfd r = .ok (m, bs, b) at hw
  unfold CELLBuffer.write2socket at hw
  split at hw
  · rename_i hcond
    rw [and_iff_right hcond]
    obtain ⟨xs, -, hw⟩ := Fallible.bind_eq_ok.mp hw
    dsimp only at hw
    split at hw
    · obtain rfl := (Prod.mk.inj (Except.ok.inj hw)).1
      exact iff_of_true rfl ‹_›
    · rename_i hpos
      -- what was accepted is returned, whether that was all or not
      have hm : m = r.ret c.sendBuff.nLast := by
        split at hw
        · exact (Prod.mk.inj (Except.ok.inj hw)).1.symm
        · obtain ⟨_, -, hw⟩ := Fallible.bind_eq_ok.mp hw
          exact (Prod.mk.inj (Except.ok.inj hw)).1.symm
      refine iff_of_false (fun heq => hpos ?_) hpos
      rw [← hm, ← heq]
      decide
  · rename_i hcond
    obtain rfl := (Prod.mk.inj (Except.ok.inj hw)).1
    exact iff_of_false (by decide) fun hall => hcond hall.1

/-- `SendData` touches the send buffer only. -/
theorem sendData_of_ok {c c' : CELLClient} {pData : List UInt8} {len ret : ℤ}
    (h : c.sendData pData len = .ok (ret, c')) : ∃ b, c' = { c with sendBuff := b } := by
  obtain ⟨⟨ok, b⟩, -, h⟩ := Fallible.bind_eq_ok.mp h
  dsimp only at h
  split at h <;> exact ⟨b, (Prod.mk.inj (Except.ok.inj h)).2.symm⟩

/-- `SendData` reads `len` bytes. -/
theorem sendData_take (c : CELLClient) {pData : List UInt8} {len : ℕ} (h : len ≤ pData.length) :
    c.sendData pData len = c.sendData (pData.take len) len := by
  have hload : Block.load pData 0 len = Block.load (pData.take len) 0 len := by
    have h₁ := Block.load_eq pData 0 len (by omega)
    have h₂ := Block.load_eq (pData.take len) 0 len (by simp; omega)
    rw [Nat.cast_zero] at h₁ h₂
    rw [h₁, h₂, List.drop_zero, List.drop_zero, List.take_take, Nat.min_self]
  simp only [sendData, CELLBuffer.push, hload]

/-- A `SendData` that returns has queued the whole message, or nothing of it. -/
theorem sendDataHeader_of_ok {c c' : CELLClient} (h : c.sendBuff.WF) {m : List UInt8}
    (h2 : 2 ≤ m.length) (hm : headerLen m = m.length) {ret : ℤ}
    (hs : c.sendDataHeader m = .ok (ret, c')) : ∃ b, c' = { c with sendBuff := b } ∧ b.WF ∧
      ((ret = m.length ∧ b.bytes = c.sendBuff.bytes ++ m) ∨
        (ret = SOCKET_ERROR ∧ b.bytes = c.sendBuff.bytes)) := by
  have hlt := headerLen_lt m
  rw [sendDataHeader, dataLength_eq h2, hm, Fallible.ok_bind, sendData, Fallible.bind_eq_ok] at hs
  obtain ⟨⟨ok, b⟩, hpush, hs⟩ := hs
  obtain ⟨hwf, -, hcases⟩ := h.push_of_ok (by omega) (le_refl _) (by omega) hpush
  rw [Int.toNat_natCast, List.take_length] at hcases
  rcases hcases with ⟨rfl, hbytes⟩ | ⟨rfl, hbytes⟩
  · obtain ⟨rfl, rfl⟩ : (m.length : ℤ) = ret ∧ { c with sendBuff := b } = c' := by simpa using hs
    exact ⟨b, rfl, hwf, Or.inl ⟨rfl, hbytes⟩⟩
  · obtain ⟨rfl, rfl⟩ : SOCKET_ERROR = ret ∧ { c with sendBuff := b } = c' := by simpa using hs
    exact ⟨b, rfl, hwf, Or.inr ⟨rfl, hbytes⟩⟩

/-- The front of the receive buffer is what it stores. -/
theorem frontMsg_eq {c : CELLClient} (h : c.recvBuff.WF) :
    ∃ zs, c.frontMsg = c.recvBuff.bytes ++ zs := by
  obtain ⟨zs, hzs⟩ := h.bytes_prefix
  exact ⟨zs, hzs.symm⟩

/-- Popping behind `hasMsg` drops the frame in front. -/
theorem popFrontMsg_eq {c : CELLClient} (h : c.recvBuff.WF)
    (hc : netmsgFraming.Complete c.recvBuff.bytes) : ∃ b, c.popFrontMsg =
      .ok { c with recvBuff := b } ∧ b.WF ∧ b.nSize = c.recvBuff.nSize ∧
      b.bytes = c.recvBuff.bytes.drop (headerLen c.recvBuff.bytes) := by
  obtain ⟨r, hr, hiff⟩ := h.hasMsg_eq
  obtain ⟨h4, hle⟩ := netmsgFraming_complete.mp hc
  obtain ⟨b, hpop, hb⟩ := h.pop_eq hle
  refine ⟨b, ?_, hb⟩
  rw [popFrontMsg, hasMsg, hr, hiff.mpr hc, Fallible.ok_bind, if_pos rfl, frontMsg,
    CELLBuffer.data, h.headerLen_pBuff h4, Fallible.ok_bind, hpop]
  rfl

/-! ## Any state

Whatever the state of its buffers, a call changes no descriptor, and can only be
undefined by an access outside a block. -/

section AnyState

variable {E : UB → Prop}

theorem recvData_sat (hE : E .outOfBounds) (c : CELLClient) (r : RecvResult) :
    Exec.Sat E (c.recvData r) fun x => x.2.sockfd = c.sockfd := by
  refine Exec.Sat.bind (Q := fun _ => True) ?_ fun x _ => rfl
  unfold CELLBuffer.read4socket
  split
  · dsimp only
    split
    · trivial
    · exact (Block.store_sat hE _ _ _).bind fun _ _ => trivial
  · trivial

theorem sendDataReal_sat (hE : E .outOfBounds) (c : CELLClient) (r : SendResult) :
    Exec.Sat E (c.sendDataReal r) fun x => x.2.2.sockfd = c.sockfd := by
  refine Exec.Sat.bind (Q := fun _ => True) ?_ fun x _ => rfl
  unfold CELLBuffer.write2socket
  split
  · refine (Block.load_sat hE _ _ _).bind fun bs _ => ?_
    dsimp only
    split
    · trivial
    · split
      · trivial
      · exact (Block.move_sat hE _ _ _ _).bind fun _ _ => trivial
  · trivial

theorem dataLength_sat (hE : E .outOfBounds) (header : List UInt8) :
    Exec.Sat E (dataLength header) fun _ => True :=
  (Block.load_sat hE _ _ _).bind fun _ _ => trivial

theorem hasMsg_sat (hE : E .outOfBounds) (c : CELLClient) :
    Exec.Sat E c.hasMsg fun _ => True := by
  unfold hasMsg CELLBuffer.hasMsg
  split
  · exact (dataLength_sat hE _).bind fun _ _ => trivial
  · trivial

theorem popFrontMsg_sat (hE : E .outOfBounds) (c : CELLClient) :
    Exec.Sat E c.popFrontMsg fun x => x.sockfd = c.sockfd := by
  refine (hasMsg_sat hE c).bind fun b _ => ?_
  split
  · refine (dataLength_sat hE _).bind fun n _ => ?_
    refine Exec.Sat.bind (Q := fun _ => True) ?_ fun _ _ => rfl
    unfold CELLBuffer.pop
    dsimp only
    split
    · exact (Block.move_sat hE _ _ _ _).bind fun _ _ => trivial
    · trivial
  · rfl

end AnyState

end CELLClient

/-! ## The drain loop -/

/-- `while (pClient->hasMsg()) { OnNetMsg(pClient->front_msg());
pClient->pop_front_msg(); }` in an owner with states `σ`. -/
def drainLoop {σ : Type} (pClient : σ → Exec CELLClient) (onNetMsg : σ → List UInt8 → Exec σ)
    (popFrontMsg : σ → Exec σ) : Loop σ UB where
  body s := do
    let c ← pClient s
    if ← c.hasMsg then
      let s ← onNetMsg s c.frontMsg
      let s ← popFrontMsg s
      return some s
    else
      return none

/-- One test of the condition : no complete frame is in front, or one is handled and
popped. -/
theorem drainLoop_body_ok {σ : Type} {pClient : σ → Exec CELLClient}
    {onNetMsg : σ → List UInt8 → Exec σ} {popFrontMsg : σ → Exec σ} {s : σ} {o : Option σ}
    (hb : (drainLoop pClient onNetMsg popFrontMsg).body s = .ok o) {c : CELLClient}
    (hc : pClient s = .ok c) (hwf : c.recvBuff.WF) :
    (o = none ∧ ¬netmsgFraming.Complete c.recvBuff.bytes) ∨
    ∃ s₁ s₂, netmsgFraming.Complete c.recvBuff.bytes ∧ onNetMsg s c.frontMsg = .ok s₁ ∧
      popFrontMsg s₁ = .ok s₂ ∧ o = some s₂ := by
  obtain ⟨r, hr, hiff⟩ := hwf.hasMsg_eq
  simp only [drainLoop, hc, Fallible.ok_bind, CELLClient.hasMsg, hr] at hb
  cases r with
  | false =>
    obtain rfl : none = o := by simpa using hb
    exact Or.inl ⟨rfl, fun h => by simpa using hiff.mpr h⟩
  | true =>
    simp only [if_true, Fallible.bind_eq_ok] at hb
    obtain ⟨s₁, hmsg, s₂, hpop, ho⟩ := hb
    obtain rfl : some s₂ = o := by simpa using ho
    exact Or.inr ⟨s₁, s₂, hiff.mp rfl, hmsg, hpop, rfl⟩

/-- A pass over a complete message. -/
theorem drainLoop_body_eq {σ : Type} {pClient : σ → Exec CELLClient}
    {onNetMsg : σ → List UInt8 → Exec σ} {popFrontMsg : σ → Exec σ} {s s₁ s₂ : σ}
    {c : CELLClient} (hc : pClient s = .ok c) (hwf : c.recvBuff.WF)
    (hcompl : netmsgFraming.Complete c.recvBuff.bytes) (hmsg : onNetMsg s c.frontMsg = .ok s₁)
    (hpop : popFrontMsg s₁ = .ok s₂) :
    (drainLoop pClient onNetMsg popFrontMsg).body s = .ok (some s₂) := by
  obtain ⟨r, hr, hiff⟩ := hwf.hasMsg_eq
  simp only [drainLoop, hc, Fallible.ok_bind, CELLClient.hasMsg, hr, hiff.mpr hcompl, if_true, hmsg,
    hpop, Fallible.pure_eq]

/-- No pass without a complete message. -/
theorem drainLoop_body_none {σ : Type} {pClient : σ → Exec CELLClient}
    {onNetMsg : σ → List UInt8 → Exec σ} {popFrontMsg : σ → Exec σ} {s : σ} {c : CELLClient}
    (hc : pClient s = .ok c) (hwf : c.recvBuff.WF)
    (hcompl : ¬netmsgFraming.Complete c.recvBuff.bytes) :
    (drainLoop pClient onNetMsg popFrontMsg).body s = .ok none := by
  obtain ⟨r, hr, hiff⟩ := hwf.hasMsg_eq
  have hrf : r = false := by
    rw [← Bool.not_eq_true, hiff]
    exact hcompl
  simp only [drainLoop, hc, Fallible.ok_bind, CELLClient.hasMsg, hr, hrf, Bool.false_eq_true,
    if_false, Fallible.pure_eq]

/-- No message header among the bytes, read as a chain of messages, announces `0`. -/
def NoZeroHeader (bs : List UInt8) : Prop :=
  ∀ ys, netmsgFraming.Boundary bs ys → netmsgFraming.frameLen ys ≠ some 0

theorem NoZeroHeader.of_frames {fs : List (List UInt8)} {t : List UInt8}
    (hfs : ∀ f ∈ fs, netmsgFraming.IsFrame f) (ht : ¬netmsgFraming.Complete t) :
    NoZeroHeader (fs.flatten ++ t) :=
  Framing.splits_iff_pos.mp ⟨fs, t, .of_frames ht hfs⟩

/-- In states that have bytes by `I`, a pass takes the message in front off the bytes, and the
loop ends where none is complete. -/
structure Loop.TakesMessages {σ : Type} (L : Loop σ UB) (I : σ → List UInt8 → Prop) : Prop where
  pass : ∀ {s bs}, I s bs → netmsgFraming.Complete bs →
    ∃ t, L.body s = .ok (some t) ∧ I t (bs.drop (headerLen bs))
  exit : ∀ {s bs}, I s bs → ¬netmsgFraming.Complete bs → L.body s = .ok none

namespace Loop.TakesMessages

variable {σ : Type} {L : Loop σ UB} {I : σ → List UInt8 → Prop} {s : σ} {bs : List UInt8}

theorem ends_of_splits (hL : L.TakesMessages I) {fs : List (List UInt8)} {rest : List UInt8}
    (hsplit : netmsgFraming.Splits bs fs rest) (hs : I s bs) : ∃ t, L.Ends s (.ok t) := by
  induction hsplit generalizing s with
  | done hc => exact ⟨s, Loop.ends_of_exit (hL.exit hs hc)⟩
  | frame hn hle _ ih =>
    obtain ⟨-, rfl⟩ := netmsgFraming_frameLen.mp hn
    obtain ⟨t, hb, ht⟩ := hL.pass hs ⟨_, hn, hle⟩
    obtain ⟨u, hu⟩ := ih ht
    exact ⟨u, Loop.ends_of_pass hb hu⟩

theorem of_ends (hL : L.TakesMessages I) {r : Exec σ} (h : L.Ends s r) (hs : I s bs) :
    ∃ t fs rest, r = .ok t ∧ I t rest ∧ netmsgFraming.Splits bs fs rest := by
  obtain ⟨n, hn⟩ := h
  induction n generalizing s bs with
  | zero => simp [Loop.run] at hn
  | succ n ih =>
    by_cases hc : netmsgFraming.Complete bs
    · obtain ⟨t, hb, ht⟩ := hL.pass hs hc
      simp only [Loop.run, hb] at hn
      obtain ⟨u, fs, rest, rfl, hu, hsplit⟩ := ih ht hn
      obtain ⟨h4, hle⟩ := netmsgFraming_complete.mp hc
      exact ⟨u, _, rest, rfl, hu, .frame (netmsgFraming_frameLen.mpr ⟨h4, rfl⟩) hle hsplit⟩
    · simp only [Loop.run, hL.exit hs hc, Option.some.injEq] at hn
      exact ⟨s, [], bs, hn.symm, hs, .done hc⟩

/-- The loop ends exactly when no header announces `0`. -/
theorem ends_iff (hL : L.TakesMessages I) (hs : I s bs) :
    (∃ t, L.Ends s (.ok t)) ↔ NoZeroHeader bs := by
  refine Iff.trans ⟨fun ⟨t, ht⟩ => ?_, fun ⟨fs, rest, hsplit⟩ => ?_⟩ Framing.splits_iff_pos
  · obtain ⟨-, fs, rest, -, -, hsplit⟩ := hL.of_ends ht hs
    exact ⟨fs, rest, hsplit⟩
  · exact hL.ends_of_splits hsplit hs

end Loop.TakesMessages

/-- A message handler that returns, and touches neither the receive buffer nor the
descriptor of the client. -/
structure Handler where
  onNetMsg : CELLClient → List UInt8 → CELLClient
  recvBuff_eq : ∀ c m, (onNetMsg c m).recvBuff = c.recvBuff
  sockfd_eq : ∀ c m, (onNetMsg c m).sockfd = c.sockfd

/-- The handler that answers every message with `m`. -/
def Handler.answer (m : List UInt8) : Handler where
  onNetMsg c _ :=
    match c.sendDataHeader m with
    | .ok (_, c) => c
    | .error _ => c
  recvBuff_eq c _ := by
    split
    · obtain ⟨n, -, h⟩ := Fallible.bind_eq_ok.mp ‹c.sendDataHeader m = _›
      obtain ⟨b, rfl⟩ := CELLClient.sendData_of_ok h
      rfl
    · rfl
  sockfd_eq c _ := by
    split
    · obtain ⟨n, -, h⟩ := Fallible.bind_eq_ok.mp ‹c.sendDataHeader m = _›
      obtain ⟨b, rfl⟩ := CELLClient.sendData_of_ok h
      rfl
    · rfl

/-- The handler that does nothing. -/
def Handler.ignore : Handler :=
  ⟨fun c _ => c, fun _ _ => rfl, fun _ _ => rfl⟩

end CellNet
