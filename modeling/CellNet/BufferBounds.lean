import CellNet.Calls
import CellNet.Client

/-!
# The bounds of the buffers

The calls of a `CELLClient` that use its two buffers, with any length, any bytes from the
peer and any outcome of `send` and `recv`. A call returns only if every range it copies,
sends or receives lies inside the block.

`push` adds the length to `_nLast` as an `int` and compares the sum with the size : a
negative length passes, and so does one that makes the sum overflow.
`buffer_bounds_iff` : these are the only calls that leave the bounds.
-/

namespace CellNet

/-- A call of a `CELLClient`. What is sent has the bytes its caller says it has. -/
inductive ClientCall
  /-- `SendData(pData, len)`. -/
  | sendData (pData : List UInt8) (len : ℤ) (hmin : -2147483648 ≤ len)
    (hmax : len < 2147483648) (hData : len ≤ pData.length)
  /-- `SendData(header)`. -/
  | sendDataHeader (header : List UInt8) (h2 : 2 ≤ header.length)
    (hheader : headerLen header ≤ header.length)
  | sendDataReal (r : SendResult)
  | recvData (r : RecvResult)
  | popFrontMsg

/-- The bytes a `SendData` passes to `push`. -/
def ClientCall.push? : ClientCall → Option (List UInt8 × ℤ)
  | sendData pData len .. => some (pData, len)
  | sendDataHeader header .. => some (header, headerLen header)
  | _ => none

namespace CELLClient

variable {c c' : CELLClient} {call : ClientCall} {ret : ℤ}

/-- One call, with the `int` it returns. -/
def clientCall (c : CELLClient) : ClientCall → Exec (ℤ × CELLClient)
  | .sendData pData len .. => c.sendData pData len
  | .sendDataHeader header .. => c.sendDataHeader header
  | .sendDataReal r => do
    let (ret, _, c) ← c.sendDataReal r
    return (ret, c)
  | .recvData r => c.recvData r
  | .popFrontMsg => do
    let c ← c.popFrontMsg
    return (0, c)

/-- Both buffers keep to their blocks. -/
structure InBounds (c : CELLClient) : Prop where
  recvBuff : c.recvBuff.WF
  sendBuff : c.sendBuff.WF

/-- Behind the call both buffers keep to their blocks, and if it was a `push` that returned
true then the bytes fitted. -/
structure KeepsBounds (c : CELLClient) (call : ClientCall) (c' : CELLClient) : Prop where
  inBounds : c'.InBounds
  nSize : c'.recvBuff.nSize = c.recvBuff.nSize ∧ c'.sendBuff.nSize = c.sendBuff.nSize
  push : ∀ x ∈ call.push?, ∀ b, c.sendBuff.push x.1 x.2 = .ok (true, b) →
    0 ≤ x.2 ∧ x.2 ≤ c.sendBuff.nSize - c.sendBuff.nLast

/-- The length of a `SendData` is not negative, and its end is an `int`. -/
def PushesInt (c : CELLClient) (call : ClientCall) : Prop :=
  ∀ x ∈ call.push?, 0 ≤ x.2 ∧ c.sendBuff.nLast + x.2 < 2147483648

/-! ## One call -/

theorem InBounds.sendData_iff (hc : c.InBounds) {pData : List UInt8} {len : ℤ}
    (hmin : -2147483648 ≤ len) (hmax : len < 2147483648) (hData : len ≤ pData.length) :
    (∃ ret c', c.sendData pData len = .ok (ret, c') ∧ c'.InBounds ∧
      (c'.recvBuff.nSize = c.recvBuff.nSize ∧ c'.sendBuff.nSize = c.sendBuff.nSize) ∧
      ∀ b, c.sendBuff.push pData len = .ok (true, b) →
        0 ≤ len ∧ len ≤ c.sendBuff.nSize - c.sendBuff.nLast) ↔
      0 ≤ len ∧ c.sendBuff.nLast + len < 2147483648 := by
  constructor
  · rintro ⟨ret, c', hsend, -⟩
    obtain ⟨⟨ok, b⟩, hpush, -⟩ := Fallible.bind_eq_ok.mp hsend
    by_contra hbad
    by_cases h0 : 0 ≤ len
    · rw [hc.sendBuff.push_of_overflow hData hmax (by omega)] at hpush
      simp at hpush
    · rw [hc.sendBuff.push_of_neg hmin (by omega)] at hpush
      simp at hpush
  · rintro ⟨h0, hint⟩
    by_cases hfit : c.sendBuff.nLast + len ≤ c.sendBuff.nSize
    · obtain ⟨b, hpush, hwf, hsize, -⟩ := hc.sendBuff.push_of_fits h0 hData hfit
      refine ⟨len, { c with sendBuff := b }, ?_, ⟨hc.recvBuff, hwf⟩, ⟨rfl, hsize⟩,
        fun _ _ => ⟨h0, by omega⟩⟩
      rw [sendData, hpush]
      rfl
    · have hpush : c.sendBuff.push pData len =
          .ok (false, { c.sendBuff with fullCount := int32 (c.sendBuff.fullCount + 1) }) :=
        hc.sendBuff.push_of_not_fits h0 hint (by omega)
      refine ⟨SOCKET_ERROR, { c with sendBuff :=
        { c.sendBuff with fullCount := int32 (c.sendBuff.fullCount + 1) } }, ?_,
        ⟨hc.recvBuff, hc.sendBuff.withFullCount _⟩, ⟨rfl, rfl⟩, fun b hb => ?_⟩
      · rw [sendData, hpush]
        rfl
      · rw [hpush] at hb
        simp at hb

/-- `RecvData`, `SendDataReal` and `pop_front_msg` always keep the bounds. -/
theorem InBounds.recvData (hc : c.InBounds) (r : RecvResult) : ∃ ret c',
    c.recvData r = .ok (ret, c') ∧ c'.InBounds ∧
      c'.recvBuff.nSize = c.recvBuff.nSize ∧ c'.sendBuff.nSize = c.sendBuff.nSize := by
  obtain ⟨ret, b, hread, hwf, hsize, -, -⟩ := hc.recvBuff.read4socket_eq r
  refine ⟨ret, { c with recvBuff := b }, ?_, ⟨hwf, hc.sendBuff⟩, hsize, rfl⟩
  rw [CELLClient.recvData, hread]
  rfl

theorem InBounds.sendDataReal (hc : c.InBounds) (r : SendResult) : ∃ ret sent c',
    c.sendDataReal r = .ok (ret, sent, c') ∧ c'.InBounds ∧
      c'.recvBuff.nSize = c.recvBuff.nSize ∧ c'.sendBuff.nSize = c.sendBuff.nSize := by
  rcases hc.sendBuff.write2socket_cases c.sockfd r with
    hw | hw | ⟨k, b, -, -, hw, hwf, hsize, -⟩
  · exact ⟨_, _, c.resetDTSend, by rw [CELLClient.sendDataReal, resetDTSend, hw]; rfl,
      ⟨hc.recvBuff, hc.sendBuff⟩, rfl, rfl⟩
  · exact ⟨_, _, c.resetDTSend, by rw [CELLClient.sendDataReal, resetDTSend, hw]; rfl,
      ⟨hc.recvBuff, hc.sendBuff⟩, rfl, rfl⟩
  · exact ⟨_, _, { c.resetDTSend with sendBuff := b },
      by rw [CELLClient.sendDataReal, resetDTSend, hw]; rfl, ⟨hc.recvBuff, hwf⟩, rfl, hsize⟩

theorem InBounds.popFrontMsg (hc : c.InBounds) : ∃ c', c.popFrontMsg = .ok c' ∧ c'.InBounds ∧
    c'.recvBuff.nSize = c.recvBuff.nSize ∧ c'.sendBuff.nSize = c.sendBuff.nSize := by
  by_cases hcomplete : netmsgFraming.Complete c.recvBuff.bytes
  · obtain ⟨b, hpop, hwf, hsize, -⟩ := popFrontMsg_eq hc.recvBuff hcomplete
    exact ⟨_, hpop, ⟨hwf, hc.sendBuff⟩, hsize, rfl⟩
  · obtain ⟨r, hr, hiff⟩ := hc.recvBuff.hasMsg_eq
    obtain rfl : r = false := Bool.eq_false_iff.mpr (mt hiff.mp hcomplete)
    refine ⟨c, ?_, hc, rfl, rfl⟩
    rw [CELLClient.popFrontMsg, CELLClient.hasMsg, hr]
    rfl

/-- A call that is a `SendData`. -/
theorem InBounds.clientCall_iff_of_push (hc : c.InBounds) (pData : List UInt8) (len : ℤ)
    (hmin : -2147483648 ≤ len) (hmax : len < 2147483648) (hData : len ≤ pData.length)
    (hpush : call.push? = some (pData, len)) (hcall : c.clientCall call = c.sendData pData len) :
    (∃ ret c', c.clientCall call = .ok (ret, c') ∧ c.KeepsBounds call c') ↔
      c.PushesInt call := by
  have hpushes : c.PushesInt call ↔ 0 ≤ len ∧ c.sendBuff.nLast + len < 2147483648 := by
    rw [PushesInt, hpush]
    exact ⟨fun h => h _ rfl, fun h x hx => Option.mem_some_iff.mp hx ▸ h⟩
  rw [hpushes, ← hc.sendData_iff hmin hmax hData, hcall]
  constructor
  · rintro ⟨ret, c', hsend, hin, hsize, hkeeps⟩
    exact ⟨ret, c', hsend, hin, hsize, hkeeps (pData, len) hpush⟩
  · rintro ⟨ret, c', hsend, hin, hsize, hkeeps⟩
    refine ⟨ret, c', hsend, hin, hsize, fun x hx => ?_⟩
    rw [hpush] at hx
    exact Option.mem_some_iff.mp hx ▸ hkeeps

/-- A call keeps the bounds exactly if it pushes an `int`. -/
theorem InBounds.clientCall_iff (hc : c.InBounds) :
    (∃ ret c', c.clientCall call = .ok (ret, c') ∧ c.KeepsBounds call c') ↔
      c.PushesInt call := by
  cases call with
  | sendData pData len hmin hmax hData =>
    exact hc.clientCall_iff_of_push pData len hmin hmax hData rfl rfl
  | sendDataHeader header h2 hheader =>
    have hlt := headerLen_lt header
    refine hc.clientCall_iff_of_push header (headerLen header) (by omega)
      (by omega) (by omega) rfl ?_
    rw [clientCall, sendDataHeader, dataLength_eq h2, Fallible.ok_bind]
  | sendDataReal r =>
    obtain ⟨ret, sent, c', hsend, hin, hsize⟩ := hc.sendDataReal r
    refine iff_of_true ⟨ret, c', ?_, hin, hsize, by simp [ClientCall.push?]⟩
      (by simp [PushesInt, ClientCall.push?])
    rw [clientCall, hsend]
    rfl
  | recvData r =>
    obtain ⟨ret, c', hrecv, hin, hsize⟩ := hc.recvData r
    exact iff_of_true ⟨ret, c', hrecv, hin, hsize, by simp [ClientCall.push?]⟩
      (by simp [PushesInt, ClientCall.push?])
  | popFrontMsg =>
    obtain ⟨c', hpop, hin, hsize⟩ := hc.popFrontMsg
    refine iff_of_true ⟨0, c', ?_, hin, hsize, by simp [ClientCall.push?]⟩
      (by simp [PushesInt, ClientCall.push?])
    rw [clientCall, hpop]
    rfl

theorem new_inBounds {fd : SOCKET} {ss rs : ℤ} {sm rm : ℕ → UInt8}
    (hs : 0 ≤ ss ∧ ss < 2147483648) (hr : 0 ≤ rs ∧ rs < 2147483648) :
    (new fd ss rs sm rm).InBounds :=
  ⟨CELLBuffer.new_wf hr.1 hr.2 rm, CELLBuffer.new_wf hs.1 hs.2 sm⟩

end CELLClient

/-- When the bounds of the buffers hold. Whatever the sizes of the buffers, the bytes and
the outcomes of `send` and `recv`, each call of a sequence keeps the bounds exactly when no
`SendData` of it has a negative length or a length whose end is not an `int`. -/
theorem buffer_bounds_iff {c : CELLClient} (hc : c.InBounds) (calls : List ClientCall) :
    Calls.Safe CELLClient.clientCall (fun c call _ c' => c.KeepsBounds call c') c calls ↔
      Calls.Meets CELLClient.clientCall CELLClient.PushesInt c calls :=
  Calls.safe_iff_meets (fun _ _ hc => hc.clientCall_iff) (fun _ _ _ _ _ hk => hk.inBounds)
    calls hc

/-- A new client is told to send -1 bytes. -/
theorem not_buffer_bounds : ¬∀ (fd : SOCKET) (ss rs : ℤ) (sm rm : ℕ → UInt8)
    (calls : List ClientCall), 0 < ss → ss < 2147483648 → 0 < rs → rs < 2147483648 →
    Calls.Safe CELLClient.clientCall (fun c call _ c' => c.KeepsBounds call c')
      (.new fd ss rs sm rm) calls := by
  intro hall
  have hin : (CELLClient.new 3 64 64 (fun _ => 0) fun _ => 0).InBounds :=
    CELLClient.new_inBounds (by decide) (by decide)
  obtain ⟨ret, c', hcall, hkeeps, -⟩ := hall 3 64 64 (fun _ => 0) (fun _ => 0)
    [.sendData [] (-1) (by decide) (by decide) (by decide)] (by decide) (by decide) (by decide)
    (by decide)
  have hpushes := hin.clientCall_iff.mp ⟨ret, c', hcall, hkeeps⟩ _ rfl
  exact absurd hpushes.1 (by decide)

/-- A message is received and popped, and an answer is sent. -/
theorem buffer_bounds_iff_answer :
    Calls.Safe CELLClient.clientCall (fun c call _ c' => c.KeepsBounds call c')
      (.new 3 64 64 (fun _ => 0) fun _ => 0)
      [.recvData (.avail [4, 0, 15, 0]), .popFrontMsg,
        .sendDataHeader netmsgS2cHeartBytes (by decide) (by decide),
        .sendDataReal (.accept 4)] := by
  have hin : (CELLClient.new 3 64 64 (fun _ => 0) fun _ => 0).InBounds :=
    CELLClient.new_inBounds (by decide) (by decide)
  refine (buffer_bounds_iff hin _).mpr ⟨by simp [CELLClient.PushesInt, ClientCall.push?], ?_⟩
  intro _ c₁ h₁
  obtain ⟨-, rfl⟩ := Prod.mk.inj (Except.ok.inj h₁)
  refine ⟨by simp [CELLClient.PushesInt, ClientCall.push?], fun _ c₂ h₂ => ?_⟩
  obtain ⟨-, rfl⟩ := Prod.mk.inj (Except.ok.inj h₂)
  refine ⟨?_, fun _ c₃ _ => ⟨by simp [CELLClient.PushesInt, ClientCall.push?],
    fun _ _ _ => trivial⟩⟩
  rintro _ ⟨⟩
  decide

end CellNet
