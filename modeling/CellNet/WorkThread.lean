import CellNet.OnRun

/-!
# The count of connections

The `WorkThread`s of the client program connect the clients, and then let them send and
call `OnRun` of those that run. A thread works on its own clients; `nConnect` is shared :
it counts the clients that connected, less one for each `OnRun` that returned `false`.

`lost_connections_iff` : the epoll client returns and leaves what the select client does
exactly when nothing fails and no message that was read announces `0` bytes, and `nConnect`
is the number of the connections that run exactly as long as no wait call fails but for
`EINTR`, and no call on a socket does.
-/

namespace CellNet

/-! ## The threads -/

/-- How the connection of a client goes. -/
inductive ConnectResult
  /-- `InitSocket` fails. -/
  | noSocket
  /-- `connect` fails. -/
  | refused (c : CELLClient)
  | connected (c : CELLClient)

/-- The loop of a `WorkThread` that connects its clients, and ends with the first that
fails : how many have connected, and the clients. -/
def connectClients (bCheckMsgID : Bool) :
    List ConnectResult → ℕ × List (EasyTcpClient MyClient)
  | [] => (0, [])
  | .connected c :: rs =>
    let (nConnect, clients) := connectClients bCheckMsgID rs
    (nConnect + 1, ⟨some c, true, .new bCheckMsgID⟩ :: clients)
  | .refused c :: rs =>
    (0, ⟨some c, false, .new bCheckMsgID⟩ :: rs.map fun _ => ⟨none, false, .new bCheckMsgID⟩)
  | .noSocket :: rs =>
    (0, (ConnectResult.noSocket :: rs).map fun _ => ⟨none, false, .new bCheckMsgID⟩)

/-- The state the `WorkThread`s share, with the clients of all of them. -/
structure WorkState where
  clients : List (EasyTcpClient MyClient)
  /-- A `std::atomic_int`. -/
  nConnect : ℤ
  sendCount : ℤ

/-- What a `WorkThread` does next. -/
inductive WorkAct
  /-- `SendTest` of the client `n`, if it runs. -/
  | sendTest (n : ℕ)
  /-- `OnRun` of the client `n`, if it runs, `dt` after the last round. -/
  | onRun (n : ℕ) (w : WaitResult) (r : RecvResult) (s : SendResult) (dt : ℤ)

namespace WorkState

open EasyTcpClient

variable (login : NetmsgLogin) (nMsg nSendSleep : ℤ)

/-- `SendTest` of the client `n`, which is `e`. -/
def sendTest (st : WorkState) (n : ℕ) (e : EasyTcpClient MyClient) : Exec WorkState :=
  if e.isRun then do
    let (ret, e) ← MyClient.sendTest e login
    return { st with
      clients := st.clients.set n e
      sendCount := if 0 < ret then int32 (st.sendCount + 1) else st.sendCount }
  else
    return st

/-- `OnRun` of the client `n`, which is `e`. -/
def onRun (fuel : ℕ) (st : WorkState) (n : ℕ) (e : EasyTcpClient MyClient) (w : WaitResult)
    (r : RecvResult) (s : SendResult) (dt : ℤ) : Looping WorkState :=
  if e.isRun then do
    let (ret, e) ← epollOnRun MyClient.onNetMsg fuel e w r s
    if ret then
      let (_, derived) := MyClient.checkSend nMsg nSendSleep e.derived dt
      return { st with clients := st.clients.set n { e with derived } }
    else
      return { st with clients := st.clients.set n e, nConnect := int32 (st.nConnect - 1) }
  else
    return st

/-- One action, in which a loop ends after at most `fuel` tests. -/
def act (fuel : ℕ) (st : WorkState) : WorkAct → Option (Exec WorkState)
  | .sendTest n => st.clients[n]?.map (st.sendTest login n)
  | .onRun n w r s dt => st.clients[n]?.bind fun e =>
      (st.onRun nMsg nSendSleep fuel n e w r s dt).run

end WorkState

open WorkState in
/-- The threads once all are ready. Each goes over its own clients, in turn with the
others. -/
def workThreads (bCheckMsgID : Bool) (login : NetmsgLogin) (nMsg nSendSleep : ℤ) :
    Machine WorkState WorkAct UB :=
  .ofFn (fun st => ∃ threads : List (List ConnectResult),
      st.clients = threads.flatMap (fun rs => (connectClients bCheckMsgID rs).2) ∧
      st.nConnect = int32 (threads.map fun rs => (connectClients bCheckMsgID rs).1).sum ∧
      st.sendCount = 0)
    (fun _ _ => True) (act login nMsg nSendSleep)

/-! ## The count -/

namespace WorkState

open EasyTcpClient

variable {bCheckMsgID : Bool} {login : NetmsgLogin} {nMsg nSendSleep : ℤ} {st t : WorkState}
  {e : EasyTcpClient MyClient} {n : ℕ}

/-- `nConnect` is the number of the clients that run. -/
def Counted (st : WorkState) : Prop :=
  st.nConnect = int32 (st.clients.countP isRun)

/-- The action does not call `OnRun` of a running client whose wait call fails but for
`EINTR`, or for which a call on its socket fails. -/
def Undisturbing (st : WorkState) : WorkAct → Prop
  | .sendTest _ => True
  | .onRun n w r s _ => ∀ e ∈ st.clients[n]?, e.isRun = true →
      w ≠ .fail false ∧ ¬Fails MyClient.onNetMsg e w r s

theorem countP_connectClients : ∀ rs : List ConnectResult,
    (connectClients bCheckMsgID rs).2.countP isRun = (connectClients bCheckMsgID rs).1
  | [] => rfl
  | .connected c :: rs => by
    rw [connectClients, List.countP_cons_of_pos (by rfl), countP_connectClients rs]
  | .refused c :: rs => by
    simp [connectClients, isRun]
  | .noSocket :: rs => by
    simp [connectClients, isRun]

theorem Counted.init (hinit : (workThreads bCheckMsgID login nMsg nSendSleep).init st) :
    st.Counted := by
  obtain ⟨threads, hclients, hconnect, -⟩ := hinit
  rw [Counted, hclients, hconnect, List.countP_flatMap]
  simp only [Function.comp_def, countP_connectClients]

/-- `MyClient::OnNetMsg` changes the members of `MyClient` only. -/
theorem onNetMsg_of_ok {m : List UInt8} {e' : EasyTcpClient MyClient}
    (h : MyClient.onNetMsg e m = .ok e') : ∃ derived, e' = { e with derived } := by
  obtain ⟨k, -, h⟩ := Fallible.bind_eq_ok.mp h
  split at h
  · unfold MyClient.onLoginResult at h
    split at h
    · obtain ⟨id, -, h⟩ := Fallible.bind_eq_ok.mp h
      obtain ⟨c, -, h⟩ := Fallible.bind_eq_ok.mp h
      exact ⟨_, (Except.ok.inj h).symm⟩
    · exact ⟨_, (Except.ok.inj h).symm⟩
  · exact ⟨_, (Except.ok.inj h).symm⟩
  · exact ⟨_, (Except.ok.inj h).symm⟩
  all_goals
    obtain ⟨c, -, h⟩ := Fallible.bind_eq_ok.mp h
    exact ⟨_, (Except.ok.inj h).symm⟩

theorem onNetMsg_keepsOpen : KeepsOpen MyClient.onNetMsg := by
  intro e m e' h hrun
  obtain ⟨derived, rfl⟩ := onNetMsg_of_ok h
  exact hrun

/-- `MyClient::OnNetMsg` returns, if the receive buffer has room for the longest message it
reads. -/
theorem onNetMsg_handles {nSize : ℤ} (hnSize : 100 ≤ nSize) :
    Handles MyClient.onNetMsg nSize := by
  intro e c hrun hc hsized hcompl
  have hlen : 100 ≤ c.frontMsg.length := by
    have hsize := hsized.recvBuff.size
    have hnSize' := hsized.size
    change 100 ≤ c.recvBuff.pBuff.length
    omega
  have hderef : e.deref = .ok c := by simp [deref, hc]
  have hreturns : ∃ e', MyClient.onNetMsg e c.frontMsg = .ok e' := by
    simp only [MyClient.onNetMsg, cmd_eq (show 4 ≤ c.frontMsg.length by omega), Fallible.ok_bind]
    split
    · unfold MyClient.onLoginResult
      split
      · simp only [msgID_of_le hlen, hderef, Fallible.ok_bind]
        exact ⟨_, rfl⟩
      · exact ⟨_, rfl⟩
    · exact ⟨_, rfl⟩
    · exact ⟨_, rfl⟩
    all_goals
      simp only [hderef, Fallible.ok_bind]
      exact ⟨_, rfl⟩
  obtain ⟨e', he'⟩ := hreturns
  obtain ⟨derived, rfl⟩ := onNetMsg_of_ok he'
  exact ⟨_, c, he', hc, hsized, rfl⟩

theorem sendTest_isRun {ret : ℤ} {e' : EasyTcpClient MyClient} (hrun : e.isRun = true)
    (h : MyClient.sendTest e login = .ok (ret, e')) : e'.isRun = true := by
  unfold MyClient.sendTest at h
  split at h
  · obtain ⟨⟨ret', e₁⟩, hsend, h⟩ := Fallible.bind_eq_ok.mp h
    have hrun₁ : e₁.isRun = true := by
      unfold EasyTcpClient.sendData at hsend
      rw [if_pos hrun] at hsend
      obtain ⟨c, -, hsend⟩ := Fallible.bind_eq_ok.mp hsend
      obtain ⟨⟨ret, c'⟩, -, hsend⟩ := Fallible.bind_eq_ok.mp hsend
      obtain rfl := (Prod.mk.inj (Except.ok.inj hsend)).2
      exact isRun_setClient hrun c'
    dsimp only at h
    split at h
    · obtain rfl := (Prod.mk.inj (Except.ok.inj h)).2
      exact hrun₁
    · obtain rfl := (Prod.mk.inj (Except.ok.inj h)).2
      exact hrun₁
  · obtain rfl := (Prod.mk.inj (Except.ok.inj h)).2
    exact hrun

/-- Replacing a client that runs leaves the count right exactly when it is adjusted. -/
theorem countP_set_isRun (he : st.clients[n]? = some e) (hrun : e.isRun = true)
    (e' : EasyTcpClient MyClient) :
    ((st.clients.set n e').countP isRun : ℤ) =
      st.clients.countP isRun - (if e'.isRun then 0 else 1) := by
  obtain ⟨hlt, hget⟩ := List.getElem?_eq_some_iff.mp he
  have hpos : 0 < st.clients.countP isRun :=
    List.countP_pos_iff.mpr ⟨e, List.mem_of_getElem? he, hrun⟩
  rw [List.countP_set hlt, hget, if_pos hrun]
  split <;> omega

theorem Counted.step_iff {a : WorkAct} (hs : st.Counted)
    (hstep : (workThreads bCheckMsgID login nMsg nSendSleep).step st a (.ok t)) :
    t.Counted ↔ st.Undisturbing a := by
  obtain ⟨-, fuel, hact⟩ := hstep
  cases a with
  | sendTest n =>
    refine iff_of_true ?_ trivial
    obtain ⟨e, he, hact⟩ := Option.map_eq_some_iff.mp hact
    unfold sendTest at hact
    split at hact
    · rename_i hrun
      obtain ⟨⟨ret, e'⟩, hsend, hact⟩ := Fallible.bind_eq_ok.mp hact
      obtain rfl := Except.ok.inj hact
      have hcount := countP_set_isRun he hrun e'
      rw [if_pos (sendTest_isRun hrun hsend), sub_zero] at hcount
      exact hs.trans (congrArg int32 hcount.symm)
    · exact Except.ok.inj hact ▸ hs
  | onRun n w r s dt =>
    obtain ⟨e, he, hact⟩ := Option.bind_eq_some_iff.mp hact
    have hmem : st.Undisturbing (.onRun n w r s dt) ↔
        (e.isRun = true → w ≠ .fail false ∧ ¬Fails MyClient.onNetMsg e w r s) := by
      simp [Undisturbing, he]
    rw [hmem]
    change Looping.Returns _ _ at hact
    unfold onRun at hact
    split at hact
    · rename_i hrun
      obtain ⟨⟨ret, e'⟩, hends, hact⟩ := Looping.returns_bind.mp hact
      rw [← epollOnRun_isRun_iff onNetMsg_keepsOpen ⟨fuel, hends⟩]
      have hconnect : st.nConnect = int32 (st.clients.countP isRun : ℤ) := hs
      have hcount : ∀ derived : MyClient,
          ((st.clients.set n { e' with derived }).countP isRun : ℤ) =
            st.clients.countP isRun - (if e'.isRun then 0 else 1) :=
        fun derived => countP_set_isRun he hrun { e' with derived }
      dsimp only at hact
      split at hact
      · obtain rfl : ret = true := ‹_›
        obtain rfl := Looping.returns_pure.mp hact
        simp only [Counted, hcount, hconnect]
        cases e'.isRun <;> simp [int32_sub_one_ne.symm]
      · obtain rfl : ret = false := Bool.not_eq_true _ ▸ ‹_›
        obtain rfl := Looping.returns_pure.mp hact
        simp only [Counted, hcount e'.derived, hconnect, int32_sub_int32]
        cases e'.isRun <;> simp [int32_sub_one_ne]
    · rename_i hrun
      obtain rfl := Looping.returns_pure.mp hact
      exact iff_of_true hs fun hrun' => absurd hrun' hrun

end WorkState

open EasyTcpClient

/-- When a lost connection is reported. Whatever the client, its buffers and the outcome of the
calls, with a handler that does not close the client, and that returns and leaves the
receive buffer to the loop, the two `OnRun` end and do the same exactly when the client did
not run, or its descriptor is in the bitmap, nothing fails and no message among what was read
announces `0` bytes. With any handler that does not close the client, the `OnRun` of the
epoll client ends wherever that of the select client does, and where it ends the other does
the same exactly when the client did not run or nothing fails. Over every run of the
`WorkThread`s, `nConnect` is the number of the connections that run, so that each one that was
lost has been subtracted once, exactly when no `OnRun` of a running client has a wait call
that fails but for `EINTR`, or a socket on which a call fails. -/
theorem lost_connections_iff {δ : Type}
    {onNetMsg : EasyTcpClient δ → List UInt8 → Exec (EasyTcpClient δ)}
    (hopen : KeepsOpen onNetMsg) (e : EasyTcpClient δ) (w : WaitResult) (r : RecvResult)
    (s : SendResult) {bCheckMsgID : Bool} {login : NetmsgLogin} {nMsg nSendSleep : ℤ}
    {st₀ st : WorkState} {tr : List (WorkState × WorkAct)}
    (hinit : (workThreads bCheckMsgID login nMsg nSendSleep).init st₀)
    (hrun : (workThreads bCheckMsgID login nMsg nSendSleep).Run st₀ tr st) :
    (∀ nSize, Handles onNetMsg nSize → (∀ c ∈ e.pClient, c.Sized nSize) →
      ((∃ x y, EpollEnds onNetMsg e w r s x ∧ SelectEnds onNetMsg e w r s y ∧ Alike x y) ↔
        (e.isRun = true → Undisturbed onNetMsg e w r s ∧ e.Framed w r))) ∧
    ((∃ y, SelectEnds onNetMsg e w r s y) → ∃ x, EpollEnds onNetMsg e w r s x) ∧
    (∀ x, EpollEnds onNetMsg e w r s x →
      ((∃ y, SelectEnds onNetMsg e w r s y ∧ Alike x y) ↔
        (e.isRun = true → Undisturbed onNetMsg e w r s))) ∧
    (((∀ x ∈ tr, x.1.Counted) ∧ st.Counted) ↔ ∀ x ∈ tr, x.1.Undisturbing x.2) :=
  ⟨fun _ hh hsized => both_alike_iff hopen hh hsized, epollOnRun_ends,
    fun _ hx => alike_iff hopen hx,
    hrun.forall_iff (I := fun _ => True) (fun _ _ _ _ _ => trivial)
      (fun _ _ _ _ hq hst => hq.step_iff hst) trivial (WorkState.Counted.init hinit)⟩

/-- A client that just connected. -/
def connectedClient : CELLClient :=
  .new 3 128 128 (fun _ => 0) fun _ => 0

/-- Its owner. -/
def connectedMyClient : EasyTcpClient MyClient :=
  ⟨some connectedClient, true, .new false⟩

/-- The threads once that client has connected. -/
def connectedState : WorkState :=
  ⟨[connectedMyClient], 1, 0⟩

theorem connectedState_init (login : NetmsgLogin) (nMsg nSendSleep : ℤ) :
    (workThreads false login nMsg nSendSleep).init connectedState :=
  ⟨[[.connected connectedClient]], rfl, (int32_eq (by decide) (by decide)).symm, rfl⟩

/-- A call whose evaluation gives the value and the state `v` of the client. -/
theorem EasyTcpClient.epollEnds_of_eval {e : EasyTcpClient MyClient} {w : WaitResult}
    {r : RecvResult} {s : SendResult} {n : ℕ} {v : Bool × Bool}
    (h : ((epollOnRun MyClient.onNetMsg n e w r s).run.bind Except.toOption).map
      (fun x => (x.1, x.2.isRun)) = some v) :
    ∃ x, EpollEnds MyClient.onNetMsg e w r s x ∧ (x.1, x.2.isRun) = v := by
  obtain ⟨x, hx, hv⟩ := Option.map_eq_some_iff.mp h
  obtain ⟨y, hy, hxy⟩ := Option.bind_eq_some_iff.mp hx
  exact ⟨x, ⟨n, hy.trans (congrArg some (Exec.toOption_eq_some.mp hxy))⟩, hv⟩

/-- With a message waiting, both clients go on, and the connection stays counted. -/
theorem lost_connections_iff_message : ∃ (e : EasyTcpClient MyClient) (w : WaitResult)
    (r : RecvResult) (s : SendResult),
    (∃ x y, EpollEnds MyClient.onNetMsg e w r s x ∧ SelectEnds MyClient.onNetMsg e w r s y ∧
      Alike x y) ∧
    ∃ login st₀ st, (workThreads false login 10 100).init st₀ ∧
      (workThreads false login 10 100).Run st₀ [(st₀, .onRun 0 w r s 1)] st ∧ st.Counted := by
  let w : WaitResult := .ready true true
  let r : RecvResult := .avail [4, 0, 3, 0]
  let login : NetmsgLogin := ⟨.replicate 32 0, .replicate 32 0, .replicate 28 0, 0⟩
  have hquiet : ¬Fails MyClient.onNetMsg connectedMyClient w r .fail := by
    rintro (⟨-, c, hc, -, hdata⟩ | ⟨-, ⟨c, hc, hneed⟩, -⟩)
    · obtain rfl := Option.some.inj hc
      exact absurd hdata (by decide)
    · obtain rfl := Option.some.inj hc
      exact absurd hneed (by decide)
  have hfd : ∀ c ∈ connectedMyClient.pClient, 0 ≤ c.sockfd ∧ c.sockfd < CELL_MAX_FD := by
    intro c hc
    obtain rfl := Option.some.inj hc
    decide
  have hund : Undisturbed MyClient.onNetMsg connectedMyClient w r .fail :=
    ⟨hfd, fun _ => by simp [w], hquiet⟩
  have hsized : ∀ c ∈ connectedMyClient.pClient, c.Sized 128 := by
    intro c hc
    obtain rfl := Option.some.inj hc
    exact ⟨CELLBuffer.new_wf (by decide) (by decide) _, rfl,
      CELLBuffer.new_wf (by decide) (by decide) _⟩
  have hframed : connectedMyClient.Framed w r := by
    rintro - c hc -
    obtain rfl := Option.some.inj hc
    exact NoZeroHeader.of_frames (fun f hf => by
      obtain rfl : f = [4, 0, 3, 0] := List.mem_singleton.mp hf
      rfl) netmsgFraming_not_complete_nil
  let next? := Machine.next? (fun _ _ => True) (WorkState.act login 10 100) 2
  have hnext : (next? connectedState (.onRun 0 w r .fail 1)).isSome = true := by
    decide +kernel
  obtain ⟨st, hst⟩ := Option.isSome_iff_exists.mp hnext
  have hinit := connectedState_init login 10 100
  have hrun := Machine.Run.single
    (Machine.step_of_next? (workThreads false login 10 100).init hst)
  obtain ⟨halike, -, -, hcount⟩ := lost_connections_iff WorkState.onNetMsg_keepsOpen
    connectedMyClient w r .fail hinit hrun
  have hboth := (halike 128 (WorkState.onNetMsg_handles (by decide)) hsized).mpr
    fun _ => ⟨hund, hframed⟩
  refine ⟨connectedMyClient, w, r, .fail, hboth, login, connectedState, st, hinit, hrun,
    (hcount.mpr fun x hx => ?_).2⟩
  obtain rfl := List.mem_singleton.mp hx
  rintro e he -
  obtain rfl := Option.some.inj he
  exact ⟨by simp [w], hquiet⟩

/-- The peer of the only client has closed the connection : the epoll client returns
`true`, and `nConnect` still counts it. -/
theorem not_lost_connections :
    (¬∀ {δ : Type} (onNetMsg : EasyTcpClient δ → List UInt8 → Exec (EasyTcpClient δ)),
      KeepsOpen onNetMsg → ∀ e w r s x, EpollEnds onNetMsg e w r s x →
        ∃ y, SelectEnds onNetMsg e w r s y ∧ Alike x y) ∧
    ¬∀ bCheckMsgID login nMsg nSendSleep st₀ st tr,
      (workThreads bCheckMsgID login nMsg nSendSleep).init st₀ →
      (workThreads bCheckMsgID login nMsg nSendSleep).Run st₀ tr st → st.Counted := by
  constructor
  · intro hall
    have heval : ((epollOnRun MyClient.onNetMsg 0 connectedMyClient (.ready true false)
        (.avail []) .fail).run.bind Except.toOption).map (fun x => (x.1, x.2.isRun)) =
          some (true, false) := by
      decide +kernel
    obtain ⟨x, hx, hv⟩ := epollEnds_of_eval heval
    obtain ⟨hret, hisRun⟩ := Prod.mk.inj hv
    obtain ⟨y, -, halike⟩ := hall _ WorkState.onNetMsg_keepsOpen _ _ _ _ x hx
    exact Bool.false_ne_true (hisRun ▸ halike.ret_iff.mp hret)
  · intro hall
    let login : NetmsgLogin := ⟨.replicate 32 0, .replicate 32 0, .replicate 28 0, 0⟩
    let next? := Machine.next? (fun _ _ => True) (WorkState.act login 10 100) 0
    let acts : List WorkAct := [.onRun 0 (.ready true false) (.avail []) .fail 1]
    have heval : (acts.foldlM next? connectedState).map (fun st =>
        (st.nConnect, st.clients.countP isRun)) = some (1, 0) := by
      decide +kernel
    obtain ⟨tr, st, hrun, -, hstate⟩ :=
      Machine.Run.of_next?_map (workThreads false login 10 100).init heval
    obtain ⟨hconnect, hcount⟩ := Prod.mk.inj hstate
    have hcounted := hall _ _ _ _ _ st tr (connectedState_init login 10 100) hrun
    rw [WorkState.Counted, hconnect, hcount] at hcounted
    exact absurd hcounted (by decide)

end CellNet
