import CellNet.Poll
import CellNet.TcpClient

/-!
# The two client loops

`EasySelectClient` and `EasyEpollClient` are `EasyTcpClient`s that wait for their socket
with `select` and with epoll. `OnRun` is one pass of the loop of either : it waits, reads
if the socket can be read, and sends if there was something to send and the socket can be
written.

What the wait call finds is an argument, `WaitResult`, the same for both. `serve` is what
both do with a socket that is ready, `selectOnRun_ready` and `epollOnRun_ready` say what
each makes of it : the select client returns `false` when it closes, the epoll client
`true`. They also differ in a wait that fails.
-/

namespace CellNet

/-! ## The wait call -/

/-- What the wait call finds about the socket of a client. -/
inductive WaitResult
  /-- The call fails, with `EINTR` or not. -/
  | fail (eintr : Bool)
  /-- The socket can be read or not, and written or not. Neither is a timeout. -/
  | ready (readable writable : Bool)
  deriving DecidableEq, Repr

namespace WaitResult

/-- The socket is found to be readable. -/
def readable : WaitResult → Bool
  | fail _ => false
  | ready readable _ => readable

/-- The socket is found to be writable. -/
def writable : WaitResult → Bool
  | fail _ => false
  | ready _ writable => writable

/-- The result of a `select` over the socket `sock`. -/
def select (w : WaitResult) (sock : SOCKET) : SelectResult :=
  match w with
  | fail eintr => .fail eintr
  | ready readable writable =>
    .ready (if readable then [sock] else []) (if writable then [sock] else [])

/-- The result of an `epoll_wait` for one client, which is polled for writing if
`bNeedWrite`. The pointer is that of the client. -/
def epoll (w : WaitResult) (bNeedWrite : Bool) : EpollResult :=
  match w with
  | fail eintr => .fail eintr
  | ready readable writable =>
    if readable || (bNeedWrite && writable) then
      .events [⟨some 0, readable, bNeedWrite && writable⟩]
    else .events []

end WaitResult

namespace EasyTcpClient

variable {δ : Type} (onNetMsg : EasyTcpClient δ → List UInt8 → Exec (EasyTcpClient δ))

/-- `Close`, which deletes the client. -/
def close (e : EasyTcpClient δ) : EasyTcpClient δ :=
  { e with pClient := none, isConnect := false }

/-! ## OnRun -/

/-- `EasySelectClient::OnRun`, from `_fdWrite.has(_sock)` on. -/
def selectWrite (e : EasyTcpClient δ) (sock : SOCKET) (fdWrite : CELLFDSet) (s : SendResult) :
    Exec (Bool × EasyTcpClient δ) := do
  if ← fdWrite.has sock then
    let (ret, _, e) ← e.sendDataReal s
    if SOCKET_ERROR = ret then return (false, e.close) else return (true, e)
  else
    return (true, e)

/-- `EasySelectClient::OnRun`, from `_fdRead.has(_sock)` on. -/
def selectRead (n : ℕ) (e : EasyTcpClient δ) (sock : SOCKET) (fdRead fdWrite : CELLFDSet)
    (r : RecvResult) (s : SendResult) : Looping (Bool × EasyTcpClient δ) := do
  if ← fdRead.has sock then
    let (nLen, e) ← ExceptT.mk (recvData onNetMsg n e r)
    if SOCKET_ERROR = nLen then return (false, e.close) else selectWrite e sock fdWrite s
  else
    selectWrite e sock fdWrite s

/-- `EasySelectClient::OnRun`, the loop of `RecvData` ended after at most `n` tests. -/
def selectOnRun (n : ℕ) (e : EasyTcpClient δ) (w : WaitResult) (r : RecvResult)
    (s : SendResult) : Looping (Bool × EasyTcpClient δ) :=
  if e.isRun then do
    let c ← e.deref
    let sock := c.sockfd
    let fdRead ← CELLFDSet.zero.add sock
    let fdWrite ← if c.needWrite then CELLFDSet.zero.add sock else pure .zero
    let (ret, fdRead, fdWrite) ←
      CellNet.select (sock + 1) fdRead fdWrite c.needWrite (w.select sock)
    if ret < 0 then return (false, e.close)
    else selectRead onNetMsg n e sock fdRead fdWrite r s
  else
    return (false, e)

/-- `EasyEpollClient::OnRun`, `EPOLLOUT`. -/
def epollWrite (e : EasyTcpClient δ) (ev : EpollEvent) (s : SendResult) :
    Exec (EasyTcpClient δ) :=
  if ev.epollout then do
    let (ret, _, e) ← e.sendDataReal s
    if SOCKET_ERROR = ret then return e.close else return e
  else
    return e

/-- `EasyEpollClient::OnRun`, one event. -/
def epollEvent (n : ℕ) (r : RecvResult) (s : SendResult) (e : EasyTcpClient δ)
    (ev : EpollEvent) : Looping (EasyTcpClient δ) :=
  match ev.ptr with
  | none => return e
  | some _ =>
    if ev.epollin then do
      let (nLen, e) ← ExceptT.mk (recvData onNetMsg n e r)
      if SOCKET_ERROR = nLen then return e.close else epollWrite e ev s
    else
      epollWrite e ev s

/-- `EasyEpollClient::OnRun`, the loop of `RecvData` ended after at most `n` tests. -/
def epollOnRun (n : ℕ) (e : EasyTcpClient δ) (w : WaitResult) (r : RecvResult)
    (s : SendResult) : Looping (Bool × EasyTcpClient δ) :=
  if e.isRun then do
    let c ← e.deref
    -- `_ep.ctl` has the client polled for writing if there is something to send
    let (ret, events) := (w.epoll c.needWrite).wait
    if ret < 0 then
      return (false, e)
    else if ret = 0 then
      return (true, e)
    else
      let e ← events.foldlM (epollEvent onNetMsg n r s) e
      return (true, e)
  else
    return (false, e)

/-! ## A socket that is ready -/

/-- What both do with a socket that can be written, if `wr` : whether the connection is
lost, and the client. -/
def serveWrite (e : EasyTcpClient δ) (wr : Bool) (s : SendResult) :
    Exec (Bool × EasyTcpClient δ) := do
  if wr then
    let (ret, _, e) ← e.sendDataReal s
    return (decide (SOCKET_ERROR = ret), e)
  else
    return (false, e)

/-- What both do with a socket that can be read if `rd`, and written if `wr` and there was
something to send. -/
def serve (n : ℕ) (e : EasyTcpClient δ) (rd wr : Bool) (r : RecvResult) (s : SendResult) :
    Looping (Bool × EasyTcpClient δ) := do
  if rd then
    let (nLen, e) ← ExceptT.mk (recvData onNetMsg n e r)
    if SOCKET_ERROR = nLen then return (true, e) else serveWrite e wr s
  else
    serveWrite e wr s

variable {onNetMsg} {n : ℕ} {e : EasyTcpClient δ} {c : CELLClient} {w : WaitResult}
  {r : RecvResult} {s : SendResult}

theorem deref_of_isRun (hrun : e.isRun = true) : ∃ c, e.pClient = some c ∧ e.deref = .ok c := by
  obtain ⟨c, hc⟩ := Option.isSome_iff_exists.mp (Bool.and_eq_true_iff.mp hrun).1
  exact ⟨c, hc, by simp [deref, hc]⟩

/-- The client, closed if the connection is lost. -/
def settle (x : Bool × EasyTcpClient δ) : EasyTcpClient δ :=
  if x.1 then x.2.close else x.2

theorem has_eq {sock : SOCKET} (h : 0 ≤ sock) (h' : sock < CELL_MAX_FD) (b : Bool) :
    (⟨if b then [sock] else []⟩ : CELLFDSet).has sock = .ok b := by
  cases b <;> simp [CELLFDSet.has, h, h']

theorem selectWrite_eq {sock : SOCKET} (h : 0 ≤ sock) (h' : sock < CELL_MAX_FD) (wr : Bool)
    (e : EasyTcpClient δ) (s : SendResult) :
    selectWrite e sock ⟨if wr then [sock] else []⟩ s =
      (fun x => (!x.1, settle x)) <$> serveWrite e wr s := by
  unfold selectWrite serveWrite
  rw [has_eq h h', Fallible.ok_bind]
  cases wr with
  | false => rfl
  | true =>
    simp only [if_true, map_bind]
    refine bind_congr fun x => ?_
    by_cases hret : SOCKET_ERROR = x.1 <;> simp [hret, settle]

theorem epollWrite_eq (e : EasyTcpClient δ) (ev : EpollEvent) (s : SendResult) :
    epollWrite e ev s = settle <$> serveWrite e ev.epollout s := by
  unfold epollWrite serveWrite
  cases ev.epollout with
  | false => rfl
  | true =>
    simp only [if_true, map_bind]
    refine bind_congr fun x => ?_
    by_cases hret : SOCKET_ERROR = x.1 <;> simp [hret, settle]

theorem selectRead_eq {sock : SOCKET} (h : 0 ≤ sock) (h' : sock < CELL_MAX_FD) (rd wr : Bool) :
    selectRead onNetMsg n e sock ⟨if rd then [sock] else []⟩ ⟨if wr then [sock] else []⟩ r s =
      (fun x => (!x.1, settle x)) <$> serve onNetMsg n e rd wr r s := by
  unfold selectRead serve
  rw [has_eq h h', Looping.lift_ok, pure_bind]
  cases rd with
  | false => simp only [Bool.false_eq_true, if_false, selectWrite_eq h h', Looping.lift_map]
  | true =>
    simp only [if_true, map_bind]
    refine bind_congr fun x => ?_
    by_cases hret : SOCKET_ERROR = x.1
    · simp [hret, settle]
    · simp only [hret, if_false, selectWrite_eq h h', Looping.lift_map]

theorem epollEvent_eq (p : Ptr) (rd wr : Bool) :
    epollEvent onNetMsg n r s e ⟨some p, rd, wr⟩ = settle <$> serve onNetMsg n e rd wr r s := by
  unfold epollEvent serve
  cases rd with
  | false => simp only [Bool.false_eq_true, if_false, epollWrite_eq, Looping.lift_map]
  | true =>
    simp only [if_true, map_bind]
    refine bind_congr fun x => ?_
    by_cases hret : SOCKET_ERROR = x.1
    · simp [hret, settle]
    · simp only [hret, if_false, epollWrite_eq, Looping.lift_map]

theorem select_fail {sock : SOCKET} (h' : sock < CELL_MAX_FD) (fdRead fdWrite : CELLFDSet)
    (bNeedWrite eintr : Bool) : CellNet.select (sock + 1) fdRead fdWrite bNeedWrite
      ((WaitResult.fail eintr).select sock) = .ok (-1, fdRead, fdWrite) := by
  unfold CellNet.select
  rw [if_neg (not_lt.mpr (Int.add_one_le_iff.mpr h'))]
  rfl

theorem select_ready {sock : SOCKET} (h' : sock < CELL_MAX_FD) (bNeedWrite rd wr : Bool) :
    CellNet.select (sock + 1) ⟨[sock]⟩ (if bNeedWrite then ⟨[sock]⟩ else .zero) bNeedWrite
      ((WaitResult.ready rd wr).select sock) =
    .ok (((if rd then 1 else 0) + (if bNeedWrite && wr then 1 else 0) : ℕ),
      ⟨if rd then [sock] else []⟩, ⟨if bNeedWrite && wr then [sock] else []⟩) := by
  unfold CellNet.select
  rw [if_neg (not_lt.mpr (Int.add_one_le_iff.mpr h'))]
  cases bNeedWrite <;> cases rd <;> cases wr <;> simp [WaitResult.select, CELLFDSet.zero]

theorem selectOnRun_fail (hrun : e.isRun = true) (hc : e.pClient = some c)
    (h : 0 ≤ c.sockfd) (h' : c.sockfd < CELL_MAX_FD) (eintr : Bool) :
    selectOnRun onNetMsg n e (.fail eintr) r s = pure (false, e.close) := by
  have hadd : CELLFDSet.zero.add c.sockfd = .ok ⟨[c.sockfd]⟩ := by
    simp [CELLFDSet.add, CELLFDSet.zero, h, h']
  simp only [selectOnRun, hrun, if_true, deref, hc, Looping.lift_ok, pure_bind, hadd,
    select_fail h', Int.reduceNeg, Int.reduceLT, ite_self]

theorem selectOnRun_ready (hrun : e.isRun = true) (hc : e.pClient = some c)
    (h : 0 ≤ c.sockfd) (h' : c.sockfd < CELL_MAX_FD) (rd wr : Bool) :
    selectOnRun onNetMsg n e (.ready rd wr) r s =
      (fun x => (!x.1, settle x)) <$> serve onNetMsg n e rd (c.needWrite && wr) r s := by
  have hadd : CELLFDSet.zero.add c.sockfd = .ok ⟨[c.sockfd]⟩ := by
    simp [CELLFDSet.add, CELLFDSet.zero, h, h']
  have hsel := select_ready h' c.needWrite rd wr
  have hpos : ∀ k : ℕ, ¬(k : ℤ) < 0 := fun k => not_lt.mpr (Int.natCast_nonneg k)
  rw [← selectRead_eq h h']
  simp only [selectOnRun, hrun, if_true, deref, hc, Looping.lift_ok, pure_bind, hadd]
  cases hw : c.needWrite <;> rw [hw] at hsel
  · simp only [Bool.false_eq_true, if_false] at hsel ⊢
    rw [hsel]
    simp only [Looping.lift_ok, pure_bind, if_neg (hpos _)]
  · simp only [if_true] at hsel ⊢
    rw [hsel]
    simp only [Looping.lift_ok, pure_bind, if_neg (hpos _)]

theorem epollOnRun_fail (hrun : e.isRun = true) :
    epollOnRun onNetMsg n e (.fail false) r s = pure (false, e) := by
  obtain ⟨c, hc, hderef⟩ := deref_of_isRun hrun
  simp [epollOnRun, hrun, hderef, WaitResult.epoll, EpollResult.wait]

theorem epollOnRun_eintr (hrun : e.isRun = true) :
    epollOnRun onNetMsg n e (.fail true) r s = pure (true, e) := by
  obtain ⟨c, hc, hderef⟩ := deref_of_isRun hrun
  simp [epollOnRun, hrun, hderef, WaitResult.epoll, EpollResult.wait]

theorem epollOnRun_ready (hrun : e.isRun = true) (hc : e.pClient = some c) (rd wr : Bool) :
    epollOnRun onNetMsg n e (.ready rd wr) r s =
      (fun x => (true, settle x)) <$> serve onNetMsg n e rd (c.needWrite && wr) r s := by
  simp only [epollOnRun, hrun, if_true, deref, hc, Looping.lift_ok, pure_bind, WaitResult.epoll]
  split
  · simp [EpollResult.wait, epollEvent_eq]
  · rename_i hready
    obtain ⟨rfl, hwr⟩ : rd = false ∧ (c.needWrite && wr) = false := by simpa using hready
    simp [EpollResult.wait, serve, serveWrite, hwr, settle]

/-! ## Reading -/

theorem recvData_add {x : Exec (ℤ × EasyTcpClient δ)} (h : recvData onNetMsg n e r = some x)
    (m : ℕ) : recvData onNetMsg (n + m) e r = some x := by
  unfold recvData at h ⊢
  split
  · rename_i hrun
    rw [if_pos hrun] at h
    split
    · rename_i u hu
      simpa only [hu] using h
    · rename_i nLen e' hu
      simp only [hu] at h
      split
      · rename_i hpos
        rw [if_pos hpos] at h
        obtain ⟨y, hy, rfl⟩ := Option.map_eq_some_iff.mp h
        rw [Loop.run_add hy]
        rfl
      · rename_i hpos
        rwa [if_neg hpos] at h
  · rename_i hrun
    rwa [if_neg hrun] at h

/-- The handler does not close the client. -/
def KeepsOpen (onNetMsg : EasyTcpClient δ → List UInt8 → Exec (EasyTcpClient δ)) : Prop :=
  ∀ e m e', onNetMsg e m = .ok e' → e.isRun = true → e'.isRun = true

theorem isRun_setClient (hrun : e.isRun = true) (c : CELLClient) :
    (e.setClient c).isRun = true :=
  Bool.and_eq_true_iff.mpr ⟨rfl, (Bool.and_eq_true_iff.mp hrun).2⟩

theorem drain_isRun (hopen : KeepsOpen onNetMsg) {e e' : EasyTcpClient δ}
    (hbody : (drain onNetMsg).body e = .ok (some e')) (hrun : e.isRun = true) :
    e'.isRun = true := by
  obtain ⟨c, -, hbody⟩ := Fallible.bind_eq_ok.mp hbody
  obtain ⟨b, -, hbody⟩ := Fallible.bind_eq_ok.mp hbody
  split at hbody
  · obtain ⟨e₁, hmsg, hbody⟩ := Fallible.bind_eq_ok.mp hbody
    obtain ⟨e₂, hpop, hbody⟩ := Fallible.bind_eq_ok.mp hbody
    obtain rfl : e₂ = e' := Option.some.inj (Except.ok.inj hbody)
    obtain ⟨c₁, -, hpop⟩ := Fallible.bind_eq_ok.mp hpop
    obtain ⟨c₂, -, hpop⟩ := Fallible.bind_eq_ok.mp hpop
    obtain rfl := Except.ok.inj hpop
    exact isRun_setClient (hopen _ _ _ hmsg hrun) c₂
  · simp at hbody

/-- `RecvData` keeps a client that runs, and returns an error when nothing was read. -/
theorem recvData_of_returns (hopen : KeepsOpen onNetMsg) (hrun : e.isRun = true)
    (hc : e.pClient = some c) {nLen : ℤ} {e' : EasyTcpClient δ}
    (h : recvData onNetMsg n e r = some (.ok (nLen, e'))) :
    e'.isRun = true ∧ (SOCKET_ERROR = nLen ↔ c.RecvFails r) := by
  have hderef : e.deref = .ok c := by simp [deref, hc]
  simp only [recvData, hrun, if_true, clientRecvData, hderef, Fallible.ok_bind] at h
  cases hr : c.recvData r with
  | error u => simp [hr] at h
  | ok x =>
    have herr := CELLClient.recvData_error_iff hr
    simp only [hr, Fallible.ok_bind, Fallible.pure_eq] at h
    split at h
    · obtain ⟨y, hy, hx⟩ := Option.map_eq_some_iff.mp h
      obtain ⟨e₁, rfl, heq⟩ := Exec.map_eq_ok.mp hx
      obtain ⟨rfl, rfl⟩ := Prod.mk.inj heq
      refine ⟨?_, herr⟩
      have hends : (drain onNetMsg).Ends _ (.ok e₁) := ⟨n, hy⟩
      exact ((hends.invariant (fun _ _ hs hb => drain_isRun hopen hb hs)
        (isRun_setClient hrun x.2)).1 e₁ rfl).1
    · obtain ⟨rfl, rfl⟩ := Prod.mk.inj (Except.ok.inj (Option.some.inj h))
      exact ⟨isRun_setClient hrun x.2, herr⟩

/-! ## A lost connection -/

/-- What `RecvData` leaves, where it is called. -/
def Received (onNetMsg : EasyTcpClient δ → List UInt8 → Exec (EasyTcpClient δ))
    (e : EasyTcpClient δ) (rd : Bool) (r : RecvResult) (e₁ : EasyTcpClient δ) : Prop :=
  if rd then ∃ n nLen, recvData onNetMsg n e r = some (.ok (nLen, e₁)) else e₁ = e

theorem Received.unique {rd : Bool} {e₁ e₂ : EasyTcpClient δ} (h₁ : Received onNetMsg e rd r e₁)
    (h₂ : Received onNetMsg e rd r e₂) : e₁ = e₂ := by
  cases rd with
  | false => exact h₁.trans h₂.symm
  | true =>
    obtain ⟨n, k, hn⟩ := h₁
    obtain ⟨m, l, hm⟩ := h₂
    have hnm := recvData_add hn m
    rw [Nat.add_comm, recvData_add hm n] at hnm
    exact (Prod.mk.inj (Except.ok.inj (Option.some.inj hnm))).2.symm

/-- The socket is found readable and gives nothing, or there was something to send and it
is found writable and then takes nothing. -/
def Fails (onNetMsg : EasyTcpClient δ → List UInt8 → Exec (EasyTcpClient δ))
    (e : EasyTcpClient δ) (w : WaitResult) (r : RecvResult) (s : SendResult) : Prop :=
  (w.readable = true ∧ ∃ c ∈ e.pClient, c.RecvFails r) ∨
  (w.writable = true ∧ (∃ c ∈ e.pClient, c.needWrite = true) ∧
    ∃ e₁, Received onNetMsg e w.readable r e₁ ∧ ∃ c ∈ e₁.pClient, c.SendFails s)

theorem serveWrite_of_ok {wr : Bool} {lost : Bool} {e' : EasyTcpClient δ} (hrun : e.isRun = true)
    (h : serveWrite e wr s = .ok (lost, e')) :
    e'.isRun = true ∧ (lost = true ↔ wr = true ∧ ∃ c ∈ e.pClient, c.SendFails s) := by
  obtain ⟨c, hc, hderef⟩ := deref_of_isRun hrun
  cases wr with
  | false =>
    obtain ⟨rfl, rfl⟩ := Prod.mk.inj (Except.ok.inj h)
    exact ⟨hrun, by simp⟩
  | true =>
    simp only [serveWrite, if_true, sendDataReal, hderef, Fallible.ok_bind, bind_assoc] at h
    obtain ⟨⟨ret, sent, c'⟩, hsend, h⟩ := Fallible.bind_eq_ok.mp h
    obtain ⟨rfl, rfl⟩ := Prod.mk.inj (Except.ok.inj h)
    refine ⟨isRun_setClient hrun c', ?_⟩
    rw [decide_eq_true_iff, CELLClient.sendDataReal_error_iff hsend]
    simp [hc]

/-- The connection is lost exactly when a call on the socket fails. -/
theorem serve_of_returns (hopen : KeepsOpen onNetMsg) (hrun : e.isRun = true)
    (hc : e.pClient = some c) {rd wr lost : Bool} {e' : EasyTcpClient δ}
    (h : Looping.Returns (serve onNetMsg n e rd (c.needWrite && wr) r s) (lost, e')) :
    e'.isRun = true ∧ (lost = true ↔ Fails onNetMsg e (.ready rd wr) r s) := by
  unfold serve at h
  cases rd with
  | false =>
    obtain ⟨hrun', hlost⟩ := serveWrite_of_ok hrun (Looping.returns_lift.mp h)
    refine ⟨hrun', ?_⟩
    simp [hlost, Fails, WaitResult.readable, WaitResult.writable, Received, hc, and_assoc,
      and_left_comm]
  | true =>
    rw [if_pos rfl, Looping.returns_bind] at h
    obtain ⟨⟨nLen, e₁⟩, hrecv, h⟩ := h
    obtain ⟨hrun₁, herr⟩ := recvData_of_returns hopen hrun hc hrecv
    have hreceived : Received onNetMsg e true r e₁ := ⟨n, nLen, hrecv⟩
    dsimp only at h
    split at h
    · rename_i hret
      obtain ⟨rfl, rfl⟩ := Prod.mk.inj (Looping.returns_pure.mp h)
      exact ⟨hrun₁, iff_of_true rfl (.inl ⟨rfl, c, hc, herr.mp hret⟩)⟩
    · rename_i hret
      obtain ⟨hrun', hlost⟩ := serveWrite_of_ok hrun₁ (Looping.returns_lift.mp h)
      refine ⟨hrun', hlost.trans ?_⟩
      have hreads : ¬∃ c ∈ e.pClient, c.RecvFails r := by
        rintro ⟨d, hd, hfails⟩
        obtain rfl := Option.some.inj (hc.symm.trans hd)
        exact hret (herr.mpr hfails)
      have hwrites : (∃ e₂, Received onNetMsg e true r e₂ ∧ ∃ c ∈ e₂.pClient, c.SendFails s) ↔
          ∃ c ∈ e₁.pClient, c.SendFails s :=
        ⟨fun ⟨e₂, h₂, hs⟩ => hreceived.unique h₂ ▸ hs, fun hs => ⟨e₁, hreceived, hs⟩⟩
      simp only [Fails, WaitResult.readable, WaitResult.writable, hreads, hwrites]
      simp [hc, and_assoc, and_left_comm]

/-! ## The two clients compared -/

/-- A call of `EasySelectClient::OnRun` returns `y.1` and leaves `y.2`. -/
def SelectEnds (onNetMsg : EasyTcpClient δ → List UInt8 → Exec (EasyTcpClient δ))
    (e : EasyTcpClient δ) (w : WaitResult) (r : RecvResult) (s : SendResult)
    (y : Bool × EasyTcpClient δ) : Prop :=
  ∃ n, Looping.Returns (selectOnRun onNetMsg n e w r s) y

/-- A call of `EasyEpollClient::OnRun` returns `x.1` and leaves `x.2`. -/
def EpollEnds (onNetMsg : EasyTcpClient δ → List UInt8 → Exec (EasyTcpClient δ))
    (e : EasyTcpClient δ) (w : WaitResult) (r : RecvResult) (s : SendResult)
    (x : Bool × EasyTcpClient δ) : Prop :=
  ∃ n, Looping.Returns (epollOnRun onNetMsg n e w r s) x

/-- The receive buffer and the send buffer. -/
def buffers (e : EasyTcpClient δ) : Option (CELLBuffer × CELLBuffer) :=
  e.pClient.map fun c => (c.recvBuff, c.sendBuff)

/-- Two calls of `OnRun` return the same, which says whether the client runs, and leave the
same. -/
structure Alike (x y : Bool × EasyTcpClient δ) : Prop where
  ret : x.1 = y.1
  isRun : x.2.isRun = y.2.isRun
  buffers : x.2.buffers = y.2.buffers
  ret_iff : x.1 = true ↔ x.2.isRun = true

/-- The descriptor is in the bitmap, the wait call does not fail, and no call on the socket
does. -/
structure Undisturbed (onNetMsg : EasyTcpClient δ → List UInt8 → Exec (EasyTcpClient δ))
    (e : EasyTcpClient δ) (w : WaitResult) (r : RecvResult) (s : SendResult) : Prop where
  sockfd : ∀ c ∈ e.pClient, 0 ≤ c.sockfd ∧ c.sockfd < CELL_MAX_FD
  wait : ∀ eintr, w ≠ .fail eintr
  serves : ¬Fails onNetMsg e w r s

theorem isRun_close (e : EasyTcpClient δ) : e.close.isRun = false :=
  rfl

theorem selectOnRun_of_not (hrun : e.isRun = false) :
    selectOnRun onNetMsg n e w r s = pure (false, e) := by
  simp [selectOnRun, hrun]

theorem epollOnRun_of_not (hrun : e.isRun = false) :
    epollOnRun onNetMsg n e w r s = pure (false, e) := by
  simp [epollOnRun, hrun]

/-- `select` is undefined on a descriptor outside the bitmap. -/
theorem selectOnRun_range (hrun : e.isRun = true) {x : Bool × EasyTcpClient δ}
    (h : Looping.Returns (selectOnRun onNetMsg n e w r s) x) :
    ∀ c ∈ e.pClient, 0 ≤ c.sockfd ∧ c.sockfd < CELL_MAX_FD := by
  intro c hc
  rw [Option.mem_def] at hc
  simp only [selectOnRun, hrun, if_true, deref, hc, Looping.lift_ok, pure_bind] at h
  obtain ⟨fdRead, hadd, h⟩ := Looping.returns_bind.mp h
  have hselect : ∃ fdWrite y, CellNet.select (c.sockfd + 1) fdRead fdWrite c.needWrite
      (w.select c.sockfd) = .ok y := by
    split at h
    · obtain ⟨fdWrite, -, h⟩ := Looping.returns_bind.mp h
      obtain ⟨y, hy, -⟩ := Looping.returns_bind.mp h
      exact ⟨fdWrite, y, Looping.returns_lift.mp hy⟩
    · obtain ⟨y, hy, -⟩ := Looping.returns_bind.mp h
      exact ⟨_, y, Looping.returns_lift.mp hy⟩
  obtain ⟨fdWrite, y, hy⟩ := hselect
  have hlt : c.sockfd < CELL_MAX_FD := by
    unfold CellNet.select at hy
    split at hy
    · simp at hy
    · exact Int.add_one_le_iff.mp (not_lt.mp ‹_›)
  refine ⟨?_, hlt⟩
  rw [Looping.returns_lift] at hadd
  unfold CELLFDSet.add at hadd
  rw [if_pos hlt] at hadd
  split at hadd
  · assumption
  · simp at hadd

/-- Where the call of the select client ends, so does that of the epoll client. -/
theorem epollOnRun_ends (hends : ∃ y, SelectEnds onNetMsg e w r s y) :
    ∃ x, EpollEnds onNetMsg e w r s x := by
  obtain ⟨y, n, hy⟩ := hends
  cases hrun : e.isRun with
  | false => exact ⟨_, n, by rw [epollOnRun_of_not hrun, Looping.returns_pure]⟩
  | true =>
    obtain ⟨c, hc, -⟩ := deref_of_isRun hrun
    obtain ⟨hpos, hlt⟩ := selectOnRun_range hrun hy c hc
    cases w with
    | fail eintr =>
      cases eintr with
      | false => exact ⟨_, n, by rw [epollOnRun_fail hrun, Looping.returns_pure]⟩
      | true => exact ⟨_, n, by rw [epollOnRun_eintr hrun, Looping.returns_pure]⟩
    | ready rd wr =>
      rw [selectOnRun_ready hrun hc hpos hlt] at hy
      obtain ⟨x, hx, -⟩ := Looping.returns_map.mp hy
      refine ⟨(true, settle x), n, ?_⟩
      rw [epollOnRun_ready hrun hc]
      exact Looping.returns_map.mpr ⟨x, hx, rfl⟩

/-- The epoll client of a running socket returns whether it runs exactly when the wait call
does not fail but for `EINTR`, and no call on the socket fails. -/
theorem epollOnRun_isRun_iff (hopen : KeepsOpen onNetMsg) {x : Bool × EasyTcpClient δ}
    (hx : EpollEnds onNetMsg e w r s x) :
    x.1 = x.2.isRun ↔ (e.isRun = true → w ≠ .fail false ∧ ¬Fails onNetMsg e w r s) := by
  obtain ⟨n, hx⟩ := hx
  cases hrun : e.isRun with
  | false =>
    rw [epollOnRun_of_not hrun, Looping.returns_pure] at hx
    subst hx
    simp [hrun]
  | true =>
    obtain ⟨c, hc, -⟩ := deref_of_isRun hrun
    cases w with
    | fail eintr =>
      cases eintr with
      | false =>
        rw [epollOnRun_fail hrun, Looping.returns_pure] at hx
        subst hx
        simp [hrun]
      | true =>
        rw [epollOnRun_eintr hrun, Looping.returns_pure] at hx
        subst hx
        simp [hrun, Fails, WaitResult.readable, WaitResult.writable]
    | ready rd wr =>
      rw [epollOnRun_ready hrun hc] at hx
      obtain ⟨⟨lost, e₁⟩, hserve, rfl⟩ := Looping.returns_map.mp hx
      obtain ⟨hrun₁, hlost⟩ := serve_of_returns hopen hrun hc hserve
      rw [← hlost]
      cases lost <;> simp [settle, isRun_close, hrun₁]

/-- The two clients behave alike exactly when nothing fails. -/
theorem alike_iff (hopen : KeepsOpen onNetMsg) {x : Bool × EasyTcpClient δ}
    (hx : EpollEnds onNetMsg e w r s x) :
    (∃ y, SelectEnds onNetMsg e w r s y ∧ Alike x y) ↔
      (e.isRun = true → Undisturbed onNetMsg e w r s) := by
  cases hrun : e.isRun with
  | false =>
    obtain ⟨n, hx⟩ := hx
    rw [epollOnRun_of_not hrun, Looping.returns_pure] at hx
    subst hx
    refine iff_of_true ⟨(false, e), ⟨n, ?_⟩, ⟨rfl, rfl, rfl, by simp [hrun]⟩⟩ (by simp)
    rw [selectOnRun_of_not hrun, Looping.returns_pure]
  | true =>
    obtain ⟨c, hc, -⟩ := deref_of_isRun hrun
    have hret := (epollOnRun_isRun_iff hopen hx).trans (forall_prop_of_true hrun)
    rw [forall_prop_of_true rfl]
    constructor
    · rintro ⟨y, ⟨m, hy⟩, halike⟩
      have hrange := selectOnRun_range hrun hy
      obtain ⟨hpos, hlt⟩ := hrange c hc
      obtain ⟨hfail, hserves⟩ := hret.mp (Bool.eq_iff_iff.mpr halike.ret_iff)
      refine ⟨hrange, fun eintr heq => ?_, hserves⟩
      subst heq
      cases eintr with
      | false => exact hfail rfl
      | true =>
        obtain ⟨n, hx⟩ := hx
        rw [epollOnRun_eintr hrun, Looping.returns_pure] at hx
        rw [selectOnRun_fail hrun hc hpos hlt, Looping.returns_pure] at hy
        subst hx hy
        exact absurd halike.ret (by simp)
    · intro hund
      obtain ⟨hpos, hlt⟩ := hund.sockfd c hc
      obtain ⟨n, hx'⟩ := hx
      cases w with
      | fail eintr => exact absurd rfl (hund.wait eintr)
      | ready rd wr =>
        have hvalue := hret.mpr ⟨hund.wait false, hund.serves⟩
        rw [epollOnRun_ready hrun hc] at hx'
        obtain ⟨⟨lost, e₁⟩, hserve, rfl⟩ := Looping.returns_map.mp hx'
        have hlost : lost = false := by
          rw [← Bool.not_eq_true, (serve_of_returns hopen hrun hc hserve).2]
          exact hund.serves
        subst hlost
        refine ⟨(true, e₁), ⟨n, ?_⟩, ⟨rfl, rfl, rfl, Bool.eq_iff_iff.mp hvalue⟩⟩
        rw [selectOnRun_ready hrun hc hpos hlt]
        exact Looping.returns_map.mpr ⟨_, hserve, rfl⟩

/-! ## Calls that end -/

/-- With a receive buffer of `nSize` bytes the handler returns for a message, and leaves the
buffer to the loop. -/
def Handles (onNetMsg : EasyTcpClient δ → List UInt8 → Exec (EasyTcpClient δ)) (nSize : ℤ) : Prop :=
  ∀ e c, e.isRun = true → e.pClient = some c → c.Sized nSize →
    netmsgFraming.Complete c.recvBuff.bytes → ∃ e' c', onNetMsg e c.frontMsg = .ok e' ∧
      e'.pClient = some c' ∧ c'.Sized nSize ∧ c'.recvBuff = c.recvBuff

/-- If something is read, then no header among the messages the loop is to take announces
`0`. -/
def Framed (e : EasyTcpClient δ) (w : WaitResult) (r : RecvResult) : Prop :=
  w.readable = true → ∀ c ∈ e.pClient, r.data c.recvBuff.free ≠ [] →
    NoZeroHeader (c.recvBuff.bytes ++ r.data c.recvBuff.free)

/-- The client runs, its buffers are well formed, and the receive buffer holds `bs`. -/
def Holds (nSize : ℤ) (e : EasyTcpClient δ) (bs : List UInt8) : Prop :=
  e.isRun = true ∧ ∃ c, e.pClient = some c ∧ c.Sized nSize ∧ c.recvBuff.bytes = bs

variable {nSize : ℤ}

theorem drain_takesMessages (hopen : KeepsOpen onNetMsg) (hh : Handles onNetMsg nSize) :
    (drain onNetMsg).TakesMessages (Holds nSize) where
  pass := by
    rintro e _ ⟨hrun, c, hc, hsized, rfl⟩ hcompl
    have hderef : e.deref = .ok c := by simp [deref, hc]
    obtain ⟨e₁, c₁, hmsg, hc₁, hsized₁, hrecv⟩ := hh e c hrun hc hsized hcompl
    rw [← hrecv] at hcompl ⊢
    obtain ⟨b, hpop, hb, hsize, hbytes⟩ := CELLClient.popFrontMsg_eq hsized₁.recvBuff hcompl
    refine ⟨e₁.setClient { c₁ with recvBuff := b }, ?_,
      isRun_setClient (hopen _ _ _ hmsg hrun) _, _, rfl,
      ⟨hb, hsize.trans hsized₁.size, hsized₁.sendBuff⟩, hbytes⟩
    refine drainLoop_body_eq hderef hsized.recvBuff (hrecv ▸ hcompl) hmsg ?_
    simp only [popFrontMsg, deref, hc₁, Fallible.ok_bind, hpop]
    rfl
  exit := by
    rintro e _ ⟨-, c, hc, hsized, rfl⟩ hcompl
    exact drainLoop_body_none (by simp [deref, hc]) hsized.recvBuff hcompl

/-- `RecvData` returns exactly when what was read has no header that announces `0`. -/
theorem recvData_returns_iff (hopen : KeepsOpen onNetMsg) (hh : Handles onNetMsg nSize)
    (hrun : e.isRun = true) (hc : e.pClient = some c) (hsized : c.Sized nSize) :
    (∃ n x, recvData onNetMsg n e r = some (.ok x)) ↔ (r.data c.recvBuff.free ≠ [] →
      NoZeroHeader (c.recvBuff.bytes ++ r.data c.recvBuff.free)) := by
  obtain ⟨ret, b, hrecv, hb, hsize, hbytes, hret⟩ := CELLClient.recvData_eq hsized.recvBuff r
  have hclient : e.clientRecvData r = .ok (ret, e.setClient { c with recvBuff := b }) := by
    simp only [clientRecvData, deref, hc, Fallible.ok_bind, hrecv, Fallible.pure_eq]
  have hpos : 0 < ret ↔ r.data c.recvBuff.free ≠ [] := by
    rw [← List.length_pos_iff]
    omega
  have hholds : Holds nSize (e.setClient { c with recvBuff := b })
      (c.recvBuff.bytes ++ r.data c.recvBuff.free) :=
    ⟨isRun_setClient hrun _, _, rfl, ⟨hb, hsize.trans hsized.size, hsized.sendBuff⟩, hbytes⟩
  have hends := (drain_takesMessages hopen hh).ends_iff hholds
  simp only [recvData, hrun, if_true, hclient, hpos]
  by_cases hne : r.data c.recvBuff.free ≠ []
  · rw [forall_prop_of_true hne, ← hends]
    simp only [if_pos hne, Option.map_eq_some_iff]
    constructor
    · rintro ⟨n, x, y, hy, hx⟩
      obtain ⟨e₁, rfl, -⟩ := Exec.map_eq_ok.mp hx
      exact ⟨e₁, n, hy⟩
    · rintro ⟨e₁, n, hn⟩
      exact ⟨n, (ret, e₁), _, hn, rfl⟩
  · simp only [if_neg hne]
    exact iff_of_true ⟨0, _, rfl⟩ fun hne' => absurd hne' hne

/-- Behind `RecvData` the client is there, with its buffers. -/
theorem recvData_sized (hopen : KeepsOpen onNetMsg) (hh : Handles onNetMsg nSize)
    (hrun : e.isRun = true) (hc : e.pClient = some c) (hsized : c.Sized nSize) {nLen : ℤ}
    {e₁ : EasyTcpClient δ} (h : recvData onNetMsg n e r = some (.ok (nLen, e₁))) :
    ∃ c₁, e₁.pClient = some c₁ ∧ c₁.Sized nSize := by
  obtain ⟨ret, b, hrecv, hb, hsize, hbytes, -⟩ := CELLClient.recvData_eq hsized.recvBuff r
  have hclient : e.clientRecvData r = .ok (ret, e.setClient { c with recvBuff := b }) := by
    simp only [clientRecvData, deref, hc, Fallible.ok_bind, hrecv, Fallible.pure_eq]
  have hsized' : CELLClient.Sized nSize { c with recvBuff := b } :=
    ⟨hb, hsize.trans hsized.size, hsized.sendBuff⟩
  simp only [recvData, hrun, if_true, hclient] at h
  split at h
  · obtain ⟨y, hy, hx⟩ := Option.map_eq_some_iff.mp h
    obtain ⟨e₂, rfl, heq⟩ := Exec.map_eq_ok.mp hx
    obtain rfl := (Prod.mk.inj heq).2
    obtain ⟨u, -, -, hu, ⟨-, c₁, hc₁, hsized₁, -⟩, -⟩ := (drain_takesMessages hopen hh).of_ends
      ⟨n, hy⟩ ⟨isRun_setClient hrun _, _, rfl, hsized', rfl⟩
    obtain rfl := Except.ok.inj hu
    exact ⟨c₁, hc₁, hsized₁⟩
  · obtain rfl := (Prod.mk.inj (Except.ok.inj (Option.some.inj h))).2
    exact ⟨_, rfl, hsized'⟩

theorem serveWrite_exists (hc : e.pClient = some c) (hsized : c.Sized nSize) (wr : Bool)
    (s : SendResult) : ∃ x, serveWrite e wr s = .ok x := by
  cases wr with
  | false => exact ⟨_, rfl⟩
  | true =>
    obtain ⟨ret, k, b, hsend, -⟩ := CELLClient.sendDataReal_eq hsized.sendBuff s
    simp only [serveWrite, if_true, sendDataReal, deref, hc, Fallible.ok_bind, hsend]
    exact ⟨_, rfl⟩

/-- A ready socket is served, and that ends, exactly when no header announces `0`. -/
theorem serve_returns_iff (hopen : KeepsOpen onNetMsg) (hh : Handles onNetMsg nSize)
    (hrun : e.isRun = true) (hc : e.pClient = some c) (hsized : c.Sized nSize) (rd wr wr' : Bool) :
    (∃ n x, Looping.Returns (serve onNetMsg n e rd wr r s) x) ↔ e.Framed (.ready rd wr') r := by
  cases rd with
  | false =>
    obtain ⟨x, hx⟩ := serveWrite_exists hc hsized wr s
    refine iff_of_true ⟨0, x, ?_⟩ fun hrd => absurd hrd Bool.false_ne_true
    exact Looping.returns_lift.mpr hx
  | true =>
    have hiff := recvData_returns_iff (r := r) hopen hh hrun hc hsized
    have hframed : e.Framed (.ready true wr') r ↔ (r.data c.recvBuff.free ≠ [] →
        NoZeroHeader (c.recvBuff.bytes ++ r.data c.recvBuff.free)) := by
      simp [Framed, WaitResult.readable, hc]
    rw [hframed, ← hiff]
    constructor
    · rintro ⟨n, x, hx⟩
      obtain ⟨y, hy, -⟩ := Looping.returns_bind.mp hx
      exact ⟨n, y, hy⟩
    · rintro ⟨n, ⟨nLen, e₁⟩, hrecv⟩
      obtain ⟨c₁, hc₁, hsized₁⟩ := recvData_sized hopen hh hrun hc hsized hrecv
      obtain ⟨x, hx⟩ := serveWrite_exists hc₁ hsized₁ wr s
      simp only [serve, if_true, Looping.returns_bind]
      by_cases hret : SOCKET_ERROR = nLen
      · refine ⟨n, (true, e₁), (nLen, e₁), hrecv, ?_⟩
        simp only [if_pos hret]
        exact Looping.returns_pure.mpr rfl
      · refine ⟨n, x, (nLen, e₁), hrecv, ?_⟩
        simp only [if_neg hret]
        exact Looping.returns_lift.mpr hx

/-- The two calls end and are alike exactly when nothing fails, and no header that is read
announces `0`. -/
theorem both_alike_iff (hopen : KeepsOpen onNetMsg) (hh : Handles onNetMsg nSize)
    (hsized : ∀ c ∈ e.pClient, c.Sized nSize) :
    (∃ x y, EpollEnds onNetMsg e w r s x ∧ SelectEnds onNetMsg e w r s y ∧ Alike x y) ↔
      (e.isRun = true → Undisturbed onNetMsg e w r s ∧ e.Framed w r) := by
  have hserve : ∀ {c}, e.isRun = true → e.pClient = some c → ∀ rd wr,
      ((∃ x, EpollEnds onNetMsg e (.ready rd wr) r s x) ↔ e.Framed (.ready rd wr) r) := by
    intro c hrun hc rd wr
    rw [← serve_returns_iff (s := s) hopen hh hrun hc (hsized c hc) rd (c.needWrite && wr) wr]
    simp only [EpollEnds, epollOnRun_ready hrun hc, Looping.returns_map]
    constructor
    · rintro ⟨-, n, x, hx, -⟩
      exact ⟨n, x, hx⟩
    · rintro ⟨n, x, hx⟩
      exact ⟨_, n, x, hx, rfl⟩
  constructor
  · rintro ⟨x, y, hx, hy, halike⟩ hrun
    obtain ⟨c, hc, -⟩ := deref_of_isRun hrun
    have hund := (alike_iff hopen hx).mp ⟨y, hy, halike⟩ hrun
    refine ⟨hund, ?_⟩
    cases w with
    | fail eintr => exact absurd rfl (hund.wait eintr)
    | ready rd wr => exact (hserve hrun hc rd wr).mp ⟨x, hx⟩
  · intro hcond
    have hends : ∃ x, EpollEnds onNetMsg e w r s x := by
      cases hrun : e.isRun with
      | false => exact ⟨_, 0, by rw [epollOnRun_of_not hrun, Looping.returns_pure]⟩
      | true =>
        obtain ⟨c, hc, -⟩ := deref_of_isRun hrun
        obtain ⟨hund, hframed⟩ := hcond hrun
        cases w with
        | fail eintr => exact absurd rfl (hund.wait eintr)
        | ready rd wr => exact (hserve hrun hc rd wr).mpr hframed
    obtain ⟨x, hx⟩ := hends
    obtain ⟨y, hy, halike⟩ := (alike_iff hopen hx).mpr fun hrun => (hcond hrun).1
    exact ⟨x, y, hx, hy, halike⟩

end EasyTcpClient

end CellNet
