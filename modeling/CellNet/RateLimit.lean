import CellNet.TcpClient

/-!
# The rate of a client

`checkSend` gives a client `nMsg` messages each time `nSendSleep` milliseconds have passed,
and `SendTest` uses them up. What has passed beyond that stays in `_tRestTime`, so after a
long pause every further call gives `nMsg` messages again, whatever the time.

`sending` is the two functions in any order, with any times, while the rest of the program
uses the connection. `Stretch` says what a stretch of a run may send, and `send_rate_iff`
when it is at most `2 * nMsg` messages in `nSendSleep` milliseconds.
-/

namespace CellNet

/-! ## The machine -/

/-- A client, with the messages it has written and the time it was told of. -/
structure Sending where
  client : EasyTcpClient MyClient
  sent : ℕ
  elapsed : ℤ

/-- What can happen to the client. -/
inductive SendingAct
  | sendTest (login : NetmsgLogin)
  | checkSend (dt : ℤ)
  /-- The rest of the program has used the connection. -/
  | connection (pClient : Option CELLClient) (isConnect : Bool)

namespace Sending

variable (nMsg nSendSleep : ℤ)

/-- One action. -/
def act (s : Sending) : SendingAct → Exec Sending
  | .sendTest login => do
    let (ret, client) ← MyClient.sendTest s.client login
    return { s with client, sent := if 0 < ret then s.sent + 1 else s.sent }
  | .checkSend dt =>
    let (_, derived) := MyClient.checkSend nMsg nSendSleep s.client.derived dt
    return { s with client := { s.client with derived }, elapsed := s.elapsed + dt }
  | .connection pClient isConnect =>
    return { s with client := { s.client with pClient, isConnect } }

/-- The clock does not go back. -/
def Forward : SendingAct → Prop
  | .checkSend dt => 0 ≤ dt
  | _ => True

instance : DecidablePred Forward
  | .sendTest _ => inferInstanceAs (Decidable True)
  | .checkSend dt => inferInstanceAs (Decidable (0 ≤ dt))
  | .connection _ _ => inferInstanceAs (Decidable True)

end Sending

/-- A new client and what happens to it. -/
def sending (nMsg nSendSleep : ℤ) : Machine Sending SendingAct UB :=
  .ofFn (fun s => (∃ bCheckMsgID, s.client.derived = .new bCheckMsgID) ∧ s.sent = 0 ∧
      s.elapsed = 0)
    (fun _ a => Sending.Forward a) (fun _ s a => some (s.act nMsg nSendSleep a))

namespace Sending

variable {nMsg nSendSleep : ℤ} {s t u : Sending} {a : SendingAct}
  {tr : List (Sending × SendingAct)}

/-! ## What a stretch sends -/

/-- The messages the client may still send, and the time since they were given. -/
def credit (s : Sending) : ℤ :=
  s.client.derived.nSendCount

def rest (s : Sending) : ℤ :=
  s.client.derived.tRestTime

/-- `SendData` leaves the members of the derived class. -/
theorem sendData_derived {e e' : EasyTcpClient MyClient} {header : List UInt8} {ret : ℤ}
    (h : e.sendData header = .ok (ret, e')) : e'.derived = e.derived := by
  unfold EasyTcpClient.sendData at h
  split at h
  · obtain ⟨c, -, h⟩ := Fallible.bind_eq_ok.mp h
    obtain ⟨⟨ret, c'⟩, -, h⟩ := Fallible.bind_eq_ok.mp h
    obtain rfl := (Prod.mk.inj (Except.ok.inj h)).2
    rfl
  · obtain rfl := (Prod.mk.inj (Except.ok.inj h)).2
    rfl

/-- `SendTest` writes a message of the credit, or none. -/
theorem sendTest_derived {e e' : EasyTcpClient MyClient} {login : NetmsgLogin} {ret : ℤ}
    (h : MyClient.sendTest e login = .ok (ret, e')) :
    e'.derived.tRestTime = e.derived.tRestTime ∧
      ((ret ≤ 0 ∧ e'.derived.nSendCount = e.derived.nSendCount) ∨
        (0 < e.derived.nSendCount ∧ e'.derived.nSendCount = e.derived.nSendCount - 1)) := by
  unfold MyClient.sendTest at h
  split at h
  · rename_i hpos
    obtain ⟨⟨ret', e₁⟩, hsend, h⟩ := Fallible.bind_eq_ok.mp h
    have hrest := congrArg MyClient.tRestTime (sendData_derived hsend)
    have hcount := congrArg MyClient.nSendCount (sendData_derived hsend)
    dsimp only at h
    split at h
    · obtain rfl := (Prod.mk.inj (Except.ok.inj h)).2
      exact ⟨hrest, .inr ⟨hpos, by simp only [hcount]⟩⟩
    · rename_i hret
      obtain ⟨rfl, rfl⟩ := Prod.mk.inj (Except.ok.inj h)
      refine ⟨hrest, .inl ⟨?_, hcount⟩⟩
      rw [← not_not.mp hret]
      decide
  · obtain ⟨rfl, rfl⟩ := Prod.mk.inj (Except.ok.inj h)
    exact ⟨rfl, .inl ⟨le_refl _, rfl⟩⟩

/-- What an action does to the credit and the time. -/
inductive Stepped (nMsg nSendSleep : ℤ) (s : Sending) : SendingAct → Sending → Prop
  | wrote {login : NetmsgLogin} {t : Sending} (hcredit : 0 < s.credit)
    (hcredit' : t.credit = s.credit - 1) (hrest : t.rest = s.rest)
    (hsent : t.sent ≤ s.sent + 1) (helapsed : t.elapsed = s.elapsed) :
    Stepped nMsg nSendSleep s (.sendTest login) t
  | idle {a : SendingAct} {t : Sending} (ha : ∀ dt, a ≠ .checkSend dt)
    (hcredit : t.credit = s.credit) (hrest : t.rest = s.rest) (hsent : t.sent = s.sent)
    (helapsed : t.elapsed = s.elapsed) : Stepped nMsg nSendSleep s a t
  | waited {dt : ℤ} {t : Sending} (hdt : 0 ≤ dt) (hlt : s.rest + dt < nSendSleep)
    (hcredit : t.credit = s.credit) (hrest : t.rest = s.rest + dt) (hsent : t.sent = s.sent)
    (helapsed : t.elapsed = s.elapsed + dt) : Stepped nMsg nSendSleep s (.checkSend dt) t
  | refilled {dt : ℤ} {t : Sending} (hdt : 0 ≤ dt) (hle : nSendSleep ≤ s.rest + dt)
    (hcredit : t.credit = nMsg) (hrest : t.rest = s.rest + dt - nSendSleep)
    (hsent : t.sent = s.sent) (helapsed : t.elapsed = s.elapsed + dt) :
    Stepped nMsg nSendSleep s (.checkSend dt) t

theorem stepped (h : (sending nMsg nSendSleep).step s a (.ok t)) :
    s.Stepped nMsg nSendSleep a t := by
  obtain ⟨hforward, _, hsome⟩ := h
  have hact : s.act nMsg nSendSleep a = .ok t := Option.some.inj hsome
  cases a with
  | sendTest login =>
    obtain ⟨⟨ret, e⟩, hsend, hret⟩ := Fallible.bind_eq_ok.mp hact
    obtain rfl := Except.ok.inj hret
    obtain ⟨hrest, ⟨hret, hcredit⟩ | ⟨hpos, hcredit⟩⟩ := sendTest_derived hsend
    · exact .idle nofun hcredit hrest (if_neg (not_lt.mpr hret)) rfl
    · refine .wrote hpos hcredit hrest ?_ rfl
      dsimp only
      split
      · exact le_refl _
      · exact Nat.le_succ _
  | checkSend dt =>
    obtain rfl := Except.ok.inj hact
    by_cases hle : nSendSleep ≤ s.client.derived.tRestTime + dt
    · refine .refilled hforward hle ?_ ?_ rfl rfl
      · simp [credit, hle]
      · simp [rest, hle]
    · refine .waited hforward (not_le.mp hle) ?_ ?_ rfl rfl
      · simp [credit, hle]
      · simp [rest, hle]
  | connection pClient isConnect =>
    obtain rfl := Except.ok.inj hact
    exact .idle nofun rfl rfl rfl rfl

/-- What a stretch of a run may send : the credit it starts with, and `nMsg` messages for
each of the `R` periods it gets through. -/
structure Stretch (nMsg nSendSleep : ℤ) (s t : Sending) (R : ℕ) : Prop where
  sent : t.sent - s.sent + t.credit ≤ s.credit + nMsg * R
  time : nSendSleep * R + t.rest = s.rest + (t.elapsed - s.elapsed)

/-- The credit and the carried time of a client that has run. -/
structure Fed (nMsg : ℤ) (s : Sending) : Prop where
  rest : 0 ≤ s.rest
  credit : 0 ≤ s.credit
  credit_le : s.credit ≤ nMsg

theorem Fed.init (hMsg : 0 ≤ nMsg) (h : (sending nMsg nSendSleep).init s) : s.Fed nMsg := by
  obtain ⟨⟨bCheckMsgID, hnew⟩, -, -⟩ := h
  constructor <;> simp [Sending.rest, Sending.credit, hnew, MyClient.new, hMsg]

theorem Fed.step (hMsg : 0 ≤ nMsg) (hs : s.Fed nMsg)
    (h : (sending nMsg nSendSleep).step s a (.ok t)) : t.Fed nMsg := by
  obtain ⟨hrest, hcredit, hle⟩ := hs
  cases stepped h <;> constructor <;> omega

theorem Stretch.step {R : ℕ} (h : Stretch nMsg nSendSleep u s R)
    (hst : s.Stepped nMsg nSendSleep a t) (hs : 0 ≤ s.credit) :
    ∃ R, Stretch nMsg nSendSleep u t R := by
  obtain ⟨hsent, htime⟩ := h
  cases hst with
  | wrote _ hcredit hrest hsent' helapsed =>
    exact ⟨R, by omega, by rw [hrest, helapsed, htime]⟩
  | idle _ hcredit hrest hsent' helapsed =>
    exact ⟨R, by rw [hcredit, hsent']; exact hsent, by rw [hrest, helapsed, htime]⟩
  | waited _ _ hcredit hrest hsent' helapsed =>
    exact ⟨R, by rw [hcredit, hsent']; exact hsent, by rw [hrest, helapsed]; omega⟩
  | refilled _ _ hcredit hrest hsent' helapsed =>
    refine ⟨R + 1, ?_, ?_⟩
    · rw [hcredit, hsent', Nat.cast_succ, mul_add, mul_one]
      omega
    · rw [hrest, helapsed, Nat.cast_succ, mul_add, mul_one]
      omega

theorem Stretch.run (hMsg : 0 ≤ nMsg) (hs : s.Fed nMsg)
    (h : (sending nMsg nSendSleep).Run s tr t) :
    t.Fed nMsg ∧ ∃ R, Stretch nMsg nSendSleep s t R := by
  refine h.invariant (I := fun t => t.Fed nMsg ∧ ∃ R, Stretch nMsg nSendSleep s t R)
    (fun t a u ht hstep => ?_) ⟨hs, 0, by simp, by simp⟩
  obtain ⟨hfed, R, hR⟩ := ht
  exact ⟨hfed.step hMsg hstep, hR.step (stepped hstep) hfed.credit⟩

/-! ## Timely checks -/

/-- No stretch of `nSendSleep` milliseconds from here writes more than `2 * nMsg` messages. -/
def KeepsRate (nMsg nSendSleep : ℤ) (s : Sending) : Prop :=
  ∀ tr t, (sending nMsg nSendSleep).Run s tr t → t.elapsed - s.elapsed ≤ nSendSleep →
    (t.sent - s.sent : ℤ) ≤ 2 * nMsg

/-- A check is made before a second period is over. -/
def Timely (nSendSleep : ℤ) (s : Sending) : SendingAct → Prop
  | .checkSend dt => s.rest + dt < 2 * nSendSleep
  | _ => True

/-- The time that is carried over is less than a period. -/
def Paced (nSendSleep : ℤ) (s : Sending) : Prop :=
  s.rest < nSendSleep

theorem Paced.step_iff (hSleep : 0 < nSendSleep) (hs : s.Paced nSendSleep)
    (h : (sending nMsg nSendSleep).step s a (.ok t)) :
    t.Paced nSendSleep ↔ s.Timely nSendSleep a := by
  unfold Paced at hs ⊢
  have hst := stepped h
  cases a with
  | checkSend dt =>
    cases hst with
    | idle ha _ _ _ _ => exact absurd rfl (ha dt)
    | waited hdt hlt _ hrest _ _ =>
      unfold Timely
      omega
    | refilled hdt hle _ hrest _ _ =>
      unfold Timely
      omega
  | _ =>
    refine iff_of_true ?_ trivial
    cases hst <;> omega

/-- Within a period the credit is given once at most. -/
theorem sent_le (hMsg : 0 ≤ nMsg) (hSleep : 0 < nSendSleep) (hs : s.Fed nMsg)
    (hpaced : s.Paced nSendSleep) (h : (sending nMsg nSendSleep).Run s tr t)
    (ht : t.elapsed - s.elapsed ≤ nSendSleep) :
    (t.sent - s.sent : ℤ) ≤ 2 * nMsg := by
  obtain ⟨hfed, R, hsent, htime⟩ := Stretch.run hMsg hs h
  have hR : R < 2 := by
    by_contra hR
    have hmul : nSendSleep * 2 ≤ nSendSleep * R :=
      Int.mul_le_mul_of_nonneg_left (by omega) (le_of_lt hSleep)
    have := hfed.rest
    unfold Paced at hpaced
    omega
  have hgiven : nMsg * R ≤ nMsg := by
    calc nMsg * R ≤ nMsg * 1 := Int.mul_le_mul_of_nonneg_left (by omega) hMsg
      _ = nMsg := mul_one nMsg
  have := hfed.credit
  have := hs.credit_le
  omega

/-! ## Bursts -/

/-- A new connection with room for a message. -/
def freshClient : CELLClient :=
  .new 0 100 0 (fun _ => 0) fun _ => 0

/-- A client with a new connection writes a message of its credit. -/
theorem sendTest_fresh {e : EasyTcpClient MyClient} (login : NetmsgLogin)
    (hcount : 0 < e.derived.nSendCount) (hclient : e.pClient = some freshClient)
    (hconnect : e.isConnect = true) :
    ∃ e', MyClient.sendTest e login = .ok (100, e') := by
  have hwf : freshClient.sendBuff.WF := CELLBuffer.new_wf (by decide) (by decide) _
  set m := { login with msgID := e.derived.nSendMsgID }.bytes with hm
  have hlen : m.length = 100 := NetmsgLogin.length_bytes _
  have hData : (100 : ℤ) ≤ m.length := by
    rw [hlen]
    exact le_refl _
  obtain ⟨b, hpush, -, -, -⟩ := hwf.push_of_fits (by decide) hData (by decide)
  have hsend : e.sendData m =
      .ok (100, e.setClient { freshClient with sendBuff := b }) := by
    have hheader : freshClient.sendDataHeader m =
        .ok (100, { freshClient with sendBuff := b }) := by
      rw [CELLClient.sendDataHeader, dataLength_eq (by omega), (NetmsgLogin.header_bytes _).1,
        NetmsgLogin.length_bytes, Fallible.ok_bind, CELLClient.sendData]
      simp only [Nat.cast_ofNat]
      rw [hpush]
      rfl
    rw [EasyTcpClient.sendData, if_pos (by simp [EasyTcpClient.isRun, hclient, hconnect]),
      EasyTcpClient.deref, hclient, Fallible.ok_bind, hheader]
    rfl
  rw [MyClient.sendTest, if_pos hcount]
  simp only [← hm, hsend]
  exact ⟨_, rfl⟩

/-- Every message of the credit can be written at once. -/
theorem burst (login : NetmsgLogin) {n : ℕ} (hs : s.credit = n) :
    ∃ tr t, (sending nMsg nSendSleep).Run s tr t ∧ t.sent = s.sent + n ∧ t.credit = 0 ∧
      t.rest = s.rest ∧ t.elapsed = s.elapsed := by
  induction n generalizing s with
  | zero => exact ⟨[], s, .nil s, rfl, hs, rfl, rfl⟩
  | succ n ih =>
    let s₁ : Sending :=
      { s with client := { s.client with pClient := some freshClient, isConnect := true } }
    have hconnect : (sending nMsg nSendSleep).step s (.connection (some freshClient) true)
      (.ok s₁) := ⟨trivial, 0, rfl⟩
    have hpos : 0 < s₁.client.derived.nSendCount := by
      change 0 < s.credit
      omega
    obtain ⟨e, he⟩ := sendTest_fresh login hpos rfl rfl
    have hsend : (sending nMsg nSendSleep).step s₁ (.sendTest login)
        (.ok { s₁ with client := e, sent := s.sent + 1 }) := by
      refine ⟨trivial, 0, ?_⟩
      simp only [act, he]
      rfl
    obtain ⟨hrest, ⟨hret, -⟩ | ⟨-, hcount⟩⟩ := sendTest_derived he
    · exact absurd hret (by decide)
    · have hs' : Sending.credit { s₁ with client := e, sent := s.sent + 1 } = n := by
        change e.derived.nSendCount = n
        rw [hcount]
        change s.credit - 1 = n
        omega
      obtain ⟨tr, t, hrun, hsent, hcredit, hrest', helapsed⟩ := ih hs'
      refine ⟨_, t, .cons hconnect (.cons hsend hrun), ?_, hcredit, ?_, helapsed⟩
      · rw [hsent, add_assoc, add_comm 1]
      · rw [hrest']
        exact hrest

/-- A check gives the credit again while a period is carried over. -/
theorem refill (nMsg : ℤ) {dt : ℤ} (hdt : 0 ≤ dt) (hle : nSendSleep ≤ s.rest + dt) :
    ∃ t, (sending nMsg nSendSleep).step s (.checkSend dt) (.ok t) ∧ t.credit = nMsg ∧
      t.rest = s.rest + dt - nSendSleep ∧ t.sent = s.sent ∧ t.elapsed = s.elapsed + dt := by
  have hle' : nSendSleep ≤ s.client.derived.tRestTime + dt := hle
  refine ⟨_, ⟨hdt, 0, rfl⟩, ?_, ?_, rfl, rfl⟩
  · simp [credit, hle']
  · simp [rest, hle']

/-- A full credit and a period that is carried over are three times the credit in one
period. -/
theorem burst_thrice (login : NetmsgLogin) (hMsg : 0 ≤ nMsg) (hSleep : 0 < nSendSleep)
    (hcredit : s.credit = nMsg) (hrest : nSendSleep ≤ s.rest) :
    ∃ tr t, (sending nMsg nSendSleep).Run s tr t ∧ t.elapsed - s.elapsed = nSendSleep ∧
      (t.sent - s.sent : ℤ) = 3 * nMsg := by
  obtain ⟨n, rfl⟩ := Int.eq_ofNat_of_zero_le hMsg
  obtain ⟨tr₁, s₁, hrun₁, hsent₁, -, hrest₁, helapsed₁⟩ := burst login hcredit
  have hle₁ : nSendSleep ≤ s₁.rest + 0 := by omega
  obtain ⟨s₂, hstep₂, hcredit₂, hrest₂, hsent₂, helapsed₂⟩ := refill n (le_refl 0) hle₁
  obtain ⟨tr₃, s₃, hrun₃, hsent₃, -, hrest₃, helapsed₃⟩ := burst login hcredit₂
  have hle₃ : nSendSleep ≤ s₃.rest + nSendSleep := by omega
  obtain ⟨s₄, hstep₄, hcredit₄, hrest₄, hsent₄, helapsed₄⟩ := refill n (le_of_lt hSleep) hle₃
  obtain ⟨tr₅, s₅, hrun₅, hsent₅, -, hrest₅, helapsed₅⟩ := burst login hcredit₄
  exact ⟨_, s₅, hrun₁.append (.cons hstep₂ (hrun₃.append (.cons hstep₄ hrun₅))), by omega,
    by omega⟩

/-- Without messages to send no rate is exceeded. -/
theorem Fed.keepsRate_zero (hs : s.Fed 0) : s.KeepsRate 0 nSendSleep := by
  intro tr t hrun _
  obtain ⟨hfed, R, hsent, -⟩ := Stretch.run (le_refl 0) hs hrun
  have := hfed.credit
  have := hs.credit_le
  omega

/-- A check that is late leaves a period and a full credit behind. -/
theorem timely_of_keepsRate (hMsg : 0 < nMsg) (hSleep : 0 < nSendSleep)
    (h : (sending nMsg nSendSleep).step s a (.ok t)) (ht : t.KeepsRate nMsg nSendSleep) :
    s.Timely nSendSleep a := by
  cases a with
  | checkSend dt =>
    by_contra hlate
    have hlate' : 2 * nSendSleep ≤ s.rest + dt := not_lt.mp hlate
    cases stepped h with
    | idle ha _ _ _ _ => exact ha dt rfl
    | waited _ hlt _ _ _ _ => omega
    | refilled _ _ hcredit hrest _ _ =>
      let login : NetmsgLogin := ⟨.replicate 32 0, .replicate 32 0, .replicate 28 0, 0⟩
      have hcarried : nSendSleep ≤ t.rest := by omega
      obtain ⟨tr, u, hrun, helapsed, hsent⟩ :=
        burst_thrice login (le_of_lt hMsg) hSleep hcredit hcarried
      have hle := ht tr u hrun (le_of_eq helapsed)
      omega
  | sendTest _ => trivial
  | connection _ _ => trivial

theorem timely_run (hMsg : 0 < nMsg) (hSleep : 0 < nSendSleep)
    (h : (sending nMsg nSendSleep).Run s tr t) (htr : ∀ x ∈ tr, x.1.KeepsRate nMsg nSendSleep)
    (ht : t.KeepsRate nMsg nSendSleep) : ∀ x ∈ tr, x.1.Timely nSendSleep x.2 := by
  induction h with
  | nil => simp
  | @snoc t u tr a hrun hstep ih =>
    simp only [List.mem_append, List.mem_singleton, or_imp, forall_and, forall_eq] at htr ⊢
    exact ⟨ih htr.1 htr.2, timely_of_keepsRate hMsg hSleep hstep ht⟩

end Sending

open Sending in
/-- The limit on the sending rate. No stretch of `nSendSleep` milliseconds from a state of
the run writes more than `2 * nMsg` messages, exactly when there is nothing to send, or each
check of the run is made before a second period is over. -/
theorem send_rate_iff {nMsg nSendSleep : ℤ} (hMsg : 0 ≤ nMsg) (hSleep : 0 < nSendSleep)
    {s₀ s : Sending} {tr : List (Sending × SendingAct)}
    (hinit : (sending nMsg nSendSleep).init s₀) (hrun : (sending nMsg nSendSleep).Run s₀ tr s) :
    ((∀ x ∈ tr, x.1.KeepsRate nMsg nSendSleep) ∧ s.KeepsRate nMsg nSendSleep) ↔
      nMsg = 0 ∨ ∀ x ∈ tr, x.1.Timely nSendSleep x.2 := by
  have hfed := Fed.init hMsg hinit
  have hstates : ∀ {pre u}, (sending nMsg nSendSleep).Run s₀ pre u → u.Fed nMsg := fun h =>
    h.invariant (fun _ _ _ hs hstep => hs.step hMsg hstep) hfed
  have hmem : ∀ x ∈ tr, x.1.Fed nMsg := fun x hx => by
    obtain ⟨pre, post, hpre, -⟩ := hrun.of_mem hx
    exact hstates hpre
  constructor
  · rintro ⟨htr, hs⟩
    rcases eq_or_lt_of_le hMsg with hzero | hpos
    · exact .inl hzero.symm
    · exact .inr (timely_run hpos hSleep hrun htr hs)
  · rintro (rfl | htimely)
    · exact ⟨fun x hx => (hmem x hx).keepsRate_zero, (hstates hrun).keepsRate_zero⟩
    · have hpaced : s₀.Paced nSendSleep := by
        obtain ⟨⟨bCheckMsgID, hnew⟩, -, -⟩ := hinit
        simpa [Paced, rest, hnew, MyClient.new] using hSleep
      obtain ⟨hpacedTr, hpacedS⟩ := (hrun.forall_iff (I := fun _ => True) (fun _ _ _ _ _ => trivial)
        (fun _ _ _ _ hs hstep => hs.step_iff hSleep hstep) trivial hpaced).mpr htimely
      exact ⟨fun x hx _ _ => sent_le hMsg hSleep (hmem x hx) (hpacedTr x hx),
        fun _ _ => sent_le hMsg hSleep (hstates hrun) hpacedS⟩

/-- A client that was told of 1.5 periods keeps its rate. -/
theorem send_rate_late : ∃ tr s, (sending 2 1000).Run ⟨⟨none, false, .new false⟩, 0, 0⟩ tr s ∧
    s.elapsed = 1500 ∧ s.KeepsRate 2 1000 := by
  let s₀ : Sending := ⟨⟨none, false, .new false⟩, 0, 0⟩
  let s₁ : Sending := ⟨⟨none, false, ⟨1, 1, 500, 2, false, []⟩⟩, 0, 1500⟩
  have hrun : (sending 2 1000).Run s₀ [(s₀, .checkSend 1500)] s₁ :=
    .single ⟨by decide, 0, rfl⟩
  have hinit : (sending 2 1000).init s₀ := ⟨⟨false, rfl⟩, rfl, rfl⟩
  have htimely : ∀ x ∈ [(s₀, SendingAct.checkSend 1500)], x.1.Timely 1000 x.2 := by
    rw [List.forall_mem_singleton]
    change (0 : ℤ) + 1500 < 2 * 1000
    decide
  exact ⟨_, s₁, hrun, rfl,
    ((send_rate_iff (by decide) (by decide) hinit hrun).mpr (.inr htimely)).2⟩

/-- After a pause of two periods a client with one message a period writes three of them
within one. -/
theorem not_send_rate : ¬∀ (nMsg nSendSleep : ℤ) (s₀ s : Sending) tr, 0 ≤ nMsg →
    0 < nSendSleep → (sending nMsg nSendSleep).init s₀ → (sending nMsg nSendSleep).Run s₀ tr s →
      s.KeepsRate nMsg nSendSleep := by
  intro hall
  let s₀ : Sending := ⟨⟨none, false, .new false⟩, 0, 0⟩
  let s₁ : Sending := ⟨⟨none, false, ⟨1, 1, 1, 1, false, []⟩⟩, 0, 2⟩
  have hrun : (sending 1 1).Run s₀ [(s₀, .checkSend 2)] s₁ := .single ⟨by decide, 0, rfl⟩
  let login : NetmsgLogin := ⟨.replicate 32 0, .replicate 32 0, .replicate 28 0, 0⟩
  let client : CELLClient := .new 4 1000 0 (fun _ => 0) fun _ => 0
  let acts : List SendingAct := [.connection (some client) true, .sendTest login, .checkSend 0,
    .sendTest login, .checkSend 1, .sendTest login]
  let next? := Machine.next? (fun _ a => Sending.Forward a)
    (fun _ (s : Sending) a => some (s.act 1 1 a)) 0
  have heval : (acts.foldlM next? s₁).map (fun t => (t.sent, t.elapsed)) = some (3, 3) := by
    decide +kernel
  obtain ⟨tr, t, hrun', -, hstate⟩ := Machine.Run.of_next?_map (sending 1 1).init heval
  obtain ⟨hsent, helapsed⟩ := Prod.mk.inj hstate
  have hle := hall 1 1 s₀ s₁ _ (by decide) (by decide) ⟨⟨false, rfl⟩, rfl, rfl⟩ hrun tr t hrun'
    (by rw [helapsed]; decide)
  rw [hsent] at hle
  exact absurd hle (by decide)

end CellNet
