import CellNet.Fallible
import CellNet.WorkThread

/-!
# Handlers that close the client

`OnNetMsg` is called in the loop of `RecvData`, which `OnRun` calls, and may itself call
`Close`, `SendData` or `InitSocket`. `RecvData` and the select client go on with `_pClient`,
whatever it is then. The epoll client also goes on with the event array and with the
client that it had before : `EasyEpollClient` numbers the client objects and the event
arrays, and `EasyEpollClient.onRun` follows its two pointers.

`handlers_may_close_iff` : what a handler may do where the client must not use a pointer
that is null or dangling. What is undefined in the handler itself is not counted, so
`ofHandler` sets it apart.
-/

namespace CellNet

/-! ## Faults -/

/-- A use of a null or dangling pointer. -/
def UB.Pointer (u : UB) : Prop :=
  u = .nullDeref ∨ u = .useAfterFree

/-- The handler, where a fault of its own is none of a pointer. -/
def ofHandler {σ : Type} (onNetMsg : σ → List UInt8 → Exec σ) (s : σ) (header : List UInt8) :
    Exec σ :=
  (onNetMsg s header).mapError fun _ => .derefEnd

theorem ofHandler_eq_ok {σ : Type} {onNetMsg : σ → List UInt8 → Exec σ} {s t : σ}
    {header : List UInt8} : ofHandler onNetMsg s header = .ok t ↔ onNetMsg s header = .ok t :=
  Fallible.mapError_eq_ok

theorem ofHandler_eq_error {σ : Type} {onNetMsg : σ → List UInt8 → Exec σ} {s : σ}
    {header : List UInt8} {u : UB} (h : ofHandler onNetMsg s header = .error u) :
    u = .derefEnd := by
  obtain ⟨v, -, hv⟩ := Fallible.mapError_eq_error.mp h
  exact hv.symm

/-- A loop ends where its passes come to an end. -/
theorem Loop.Passes.ends {σ ε : Type*} {L : Loop σ ε} {s t : σ} {x : Except ε σ}
    (h : L.Passes s t) (ht : L.Ends t x) : L.Ends s x := by
  induction h using Relation.ReflTransGen.head_induction_on with
  | refl => exact ht
  | head hpass _ ih => exact Loop.ends_of_pass hpass ih

theorem UB.not_pointer_outOfBounds : ¬UB.outOfBounds.Pointer := by
  simp [UB.Pointer]

/-- A bind is undefined when one of its parts is. -/
theorem Looping.bind_eq_error {α β : Type} {x : Looping α} {f : α → Looping β} {u : UB} :
    (x >>= f).run = some (.error u) ↔
      x.run = some (.error u) ∨ ∃ a, Looping.Returns x a ∧ (f a).run = some (.error u) := by
  unfold Looping.Returns
  rw [ExceptT.run_bind]
  cases hx : x.run with
  | none => simp
  | some r => cases r <;> simp

theorem Looping.map_eq_error {α β : Type} {x : Looping α} {f : α → β} {u : UB} :
    (f <$> x).run = some (.error u) ↔ x.run = some (.error u) := by
  rw [map_eq_pure_bind, Looping.bind_eq_error]
  simp

/-- What can only be undefined otherwise uses no such pointer. -/
theorem Exec.Sat.not_pointer {α : Type} {x : Exec α} {Q : α → Prop} {u : UB}
    (h : Exec.Sat (fun u => ¬u.Pointer) x Q) (hx : x = .error u) : ¬u.Pointer := by
  rwa [hx] at h

namespace EasyTcpClient

variable {δ : Type} {onNetMsg : EasyTcpClient δ → List UInt8 → Exec (EasyTcpClient δ)}
  {e e' : EasyTcpClient δ} {r : RecvResult} {s : SendResult} {w : WaitResult}

/-! ## RecvData -/

/-- `RecvData` enters its loop in the state `e'`. -/
def Drains (e : EasyTcpClient δ) (r : RecvResult) (e' : EasyTcpClient δ) : Prop :=
  e.isRun = true ∧ ∃ nLen, e.clientRecvData r = .ok (nLen, e') ∧ 0 < nLen

/-- `OnNetMsg` is called for the message `header`, in the state `e'`. -/
def AtMessage (onNetMsg : EasyTcpClient δ → List UInt8 → Exec (EasyTcpClient δ))
    (e : EasyTcpClient δ) (r : RecvResult) (e' : EasyTcpClient δ) (header : List UInt8) : Prop :=
  ∃ e₁ c, e.Drains r e₁ ∧ (drain onNetMsg).Passes e₁ e' ∧ e'.pClient = some c ∧
    c.hasMsg = .ok true ∧ header = c.frontMsg

/-- No call of `OnNetMsg` leaves the client without its connection object. -/
def KeepsClient (onNetMsg : EasyTcpClient δ → List UInt8 → Exec (EasyTcpClient δ))
    (e : EasyTcpClient δ) (r : RecvResult) : Prop :=
  ∀ e' header e'', AtMessage onNetMsg e r e' header → onNetMsg e' header = .ok e'' →
    e''.pClient ≠ none

theorem drain_body_ofHandler {o : Option (EasyTcpClient δ)} :
    (drain (ofHandler onNetMsg)).body e = .ok o ↔ (drain onNetMsg).body e = .ok o := by
  simp only [drain, drainLoop, Fallible.bind_eq_ok]
  refine exists_congr fun c => and_congr_right fun _ => exists_congr fun b =>
    and_congr_right fun _ => ?_
  split
  · simp only [Fallible.bind_eq_ok, ofHandler_eq_ok]
  · rfl

theorem passes_ofHandler :
    (drain (ofHandler onNetMsg)).Passes e e' ↔ (drain onNetMsg).Passes e e' := by
  simp only [Loop.Passes, drain_body_ofHandler]

/-- Where a pass uses a null pointer. -/
theorem drain_body_error {c : CELLClient} (hc : e.pClient = some c) {u : UB} (hu : u.Pointer)
    (h : (drain (ofHandler onNetMsg)).body e = .error u) :
    c.hasMsg = .ok true ∧ ∃ e', onNetMsg e c.frontMsg = .ok e' ∧ e'.pClient = none := by
  have hderef : e.deref = .ok c := by simp [deref, hc]
  simp only [drain, drainLoop, hderef, Fallible.ok_bind] at h
  rcases Fallible.bind_eq_error.mp h with h | ⟨b, hb, h⟩
  · exact absurd hu ((CELLClient.hasMsg_sat UB.not_pointer_outOfBounds c).not_pointer h)
  · cases b with
    | false => cases h
    | true =>
      rcases Fallible.bind_eq_error.mp h with h | ⟨e', he', h⟩
      · exact absurd hu (by simp [ofHandler_eq_error h, UB.Pointer])
      · refine ⟨hb, e', ofHandler_eq_ok.mp he', ?_⟩
        rcases Fallible.bind_eq_error.mp h with h | ⟨e'', -, h⟩
        · by_contra hclient
          obtain ⟨c', hc'⟩ := Option.ne_none_iff_exists'.mp hclient
          have hderef' : e'.deref = .ok c' := by simp [deref, hc']
          simp only [popFrontMsg, hderef', Fallible.ok_bind] at h
          rcases Fallible.bind_eq_error.mp h with h | ⟨c'', -, h⟩
          · refine absurd hu ?_
            exact (CELLClient.popFrontMsg_sat UB.not_pointer_outOfBounds c').not_pointer h
          · cases h
        · cases h

/-- A pass leaves the client a connection object. -/
theorem drain_body_pClient (h : (drain onNetMsg).body e = .ok (some e')) : e'.pClient ≠ none := by
  obtain ⟨c, -, h⟩ := Fallible.bind_eq_ok.mp h
  obtain ⟨b, -, h⟩ := Fallible.bind_eq_ok.mp h
  split at h
  · obtain ⟨e₁, -, h⟩ := Fallible.bind_eq_ok.mp h
    obtain ⟨e₂, hpop, h⟩ := Fallible.bind_eq_ok.mp h
    obtain rfl : e₂ = e' := Option.some.inj (Except.ok.inj h)
    obtain ⟨c₁, -, hpop⟩ := Fallible.bind_eq_ok.mp hpop
    obtain ⟨c₂, -, hpop⟩ := Fallible.bind_eq_ok.mp hpop
    obtain rfl := Except.ok.inj hpop
    exact Option.some_ne_none c₂
  · exact absurd (Except.ok.inj h) nofun

theorem Drains.pClient (h : e.Drains r e') : e'.pClient ≠ none := by
  obtain ⟨-, nLen, h, -⟩ := h
  obtain ⟨c, -, h⟩ := Fallible.bind_eq_ok.mp h
  obtain ⟨⟨n, c'⟩, -, h⟩ := Fallible.bind_eq_ok.mp h
  obtain rfl := (Prod.mk.inj (Except.ok.inj h)).2
  exact Option.some_ne_none c'

theorem Drains.passes_pClient {e₁ : EasyTcpClient δ} (h : e.Drains r e₁)
    (hp : (drain onNetMsg).Passes e₁ e') : e'.pClient ≠ none :=
  hp.invariant (I := fun e' => e'.pClient ≠ none) (fun _ _ _ hb => drain_body_pClient hb) h.pClient

/-- What `RecvData` of a client that runs comes to : an error of `recv`, nothing to handle,
or its loop. -/
theorem recvData_cases (hrun : e.isRun = true) {n : ℕ} {x : Exec (ℤ × EasyTcpClient δ)}
    (h : recvData onNetMsg n e r = some x) :
    (∃ u, x = .error u ∧ ¬u.Pointer) ∨
    (∃ nLen c, x = .ok (nLen, e.setClient c) ∧ ∀ e', ¬e.Drains r e') ∨
    ∃ nLen e₁ y, 0 < nLen ∧ e.Drains r e₁ ∧ (drain onNetMsg).run n e₁ = some y ∧
      x = (nLen, ·) <$> y := by
  obtain ⟨c, hc, hderef⟩ := deref_of_isRun hrun
  unfold recvData at h
  rw [if_pos hrun] at h
  split at h
  · rename_i u hrecv
    refine .inl ⟨u, (Option.some.inj h).symm, ?_⟩
    simp only [clientRecvData, hderef, Fallible.ok_bind] at hrecv
    rcases Fallible.bind_eq_error.mp hrecv with hrecv | ⟨y, -, hrecv⟩
    · exact (CELLClient.recvData_sat UB.not_pointer_outOfBounds c r).not_pointer hrecv
    · cases hrecv
  · rename_i nLen e₁ hrecv
    right
    split at h
    · rename_i hpos
      obtain ⟨y, hy, rfl⟩ := Option.map_eq_some_iff.mp h
      exact .inr ⟨nLen, e₁, y, hpos, ⟨hrun, nLen, hrecv, hpos⟩, hy, rfl⟩
    · rename_i hpos
      obtain rfl := Option.some.inj h
      obtain ⟨c₁, hc₁⟩ : ∃ c₁, e₁ = e.setClient c₁ := by
        simp only [clientRecvData, hderef, Fallible.ok_bind] at hrecv
        obtain ⟨⟨k, c₁⟩, -, hrecv⟩ := Fallible.bind_eq_ok.mp hrecv
        exact ⟨c₁, (Prod.mk.inj (Except.ok.inj hrecv)).2.symm⟩
      refine .inl ⟨nLen, c₁, by rw [hc₁], ?_⟩
      rintro e' ⟨-, k, hk, hkpos⟩
      obtain ⟨rfl, -⟩ := Prod.mk.inj (Except.ok.inj (hrecv.symm.trans hk))
      exact hpos hkpos

/-- The calls of a handler that `RecvData` survives. -/
theorem recvData_safe_iff (hrun : e.isRun = true) :
    (∀ n u, recvData (ofHandler onNetMsg) n e r = some (.error u) → ¬u.Pointer) ↔
      KeepsClient onNetMsg e r := by
  constructor
  · rintro hsafe e' header e'' ⟨e₁, c, hdrains, hpasses, hc, hmsg, rfl⟩ hcall hnull
    have hbody : (drain (ofHandler onNetMsg)).body e' = .error .nullDeref := by
      have hderef : e'.deref = .ok c := by simp [deref, hc]
      have hderef' : e''.deref = .error .nullDeref := by simp [deref, hnull]
      simp only [drain, drainLoop, hderef, hmsg, Fallible.ok_bind, if_true,
        ofHandler_eq_ok.mpr hcall, popFrontMsg, hderef', Fallible.error_bind]
    have hfault : (drain (ofHandler onNetMsg)).Ends e' (.error .nullDeref) :=
      ⟨1, by simp [Loop.run, hbody]⟩
    obtain ⟨n, hn⟩ := (passes_ofHandler.mpr hpasses).ends hfault
    obtain ⟨-, nLen, hrecv, hpos⟩ := hdrains
    refine hsafe n .nullDeref ?_ (.inl rfl)
    simp only [recvData, hrun, if_true, hrecv, if_pos hpos, hn]
    rfl
  · intro hkeeps n u h
    rcases recvData_cases hrun h with ⟨u', hu', hnot⟩ | ⟨nLen, c, hx, -⟩ |
      ⟨nLen, e₁, y, -, hdrains, hy, hx⟩
    · obtain rfl := Except.error.inj hu'
      exact hnot
    · cases hx
    · cases y with
      | ok e₂ => cases hx
      | error v =>
        obtain rfl : u = v := Except.error.inj hx
        intro hu
        have hends : (drain (ofHandler onNetMsg)).Ends e₁ (.error u) := ⟨n, hy⟩
        obtain ⟨-, herror⟩ := hends.invariant (I := (drain (ofHandler onNetMsg)).Passes e₁)
          (fun _ _ hp hb => hp.tail hb) .refl
        obtain ⟨e', hpasses, hbody⟩ := herror u rfl
        have hpasses' := passes_ofHandler.mp hpasses
        obtain ⟨c, hc⟩ := Option.ne_none_iff_exists'.mp (hdrains.passes_pClient hpasses')
        obtain ⟨hmsg, e'', hcall, hnull⟩ := drain_body_error hc hu hbody
        exact hkeeps e' _ e'' ⟨e₁, c, hdrains, hpasses', hc, hmsg, rfl⟩ hcall hnull

/-- `RecvData` leaves the client a connection object. -/
theorem recvData_pClient (hrun : e.isRun = true) {n : ℕ} {nLen : ℤ}
    (h : recvData (ofHandler onNetMsg) n e r = some (.ok (nLen, e'))) : e'.pClient ≠ none := by
  rcases recvData_cases hrun h with ⟨u, hu, -⟩ | ⟨k, c, hx, -⟩ | ⟨k, e₁, y, -, hdrains, hy, hx⟩
  · exact absurd hu nofun
  · obtain rfl := (Prod.mk.inj (Except.ok.inj hx)).2
    exact Option.some_ne_none c
  · obtain ⟨e₂, rfl, heq⟩ := Exec.map_eq_ok.mp hx.symm
    obtain rfl := (Prod.mk.inj heq).2
    have hends : (drain (ofHandler onNetMsg)).Ends e₁ (.ok e₂) := ⟨n, hy⟩
    exact hdrains.passes_pClient hends.passes.1

/-! ## The select client -/

theorem serveWrite_not_pointer {wr : Bool} (hclient : e.pClient ≠ none) {u : UB}
    (h : serveWrite e wr s = .error u) : ¬u.Pointer := by
  cases wr with
  | false => cases h
  | true =>
    obtain ⟨c, hc⟩ := Option.ne_none_iff_exists'.mp hclient
    have hderef : e.deref = .ok c := by simp [deref, hc]
    simp only [serveWrite, if_true, sendDataReal, hderef, Fallible.ok_bind, bind_assoc] at h
    rcases Fallible.bind_eq_error.mp h with h | ⟨x, -, h⟩
    · exact (CELLClient.sendDataReal_sat UB.not_pointer_outOfBounds c s).not_pointer h
    · cases h

/-- What a socket that is ready lets a handler do. -/
theorem serve_safe_iff (hrun : e.isRun = true) (rd wr : Bool) :
    (∀ n u, (serve (ofHandler onNetMsg) n e rd wr r s).run = some (.error u) → ¬u.Pointer) ↔
      (rd = true → KeepsClient onNetMsg e r) := by
  obtain ⟨c, hc, -⟩ := deref_of_isRun hrun
  cases rd with
  | false =>
    refine iff_of_true (fun n u h => ?_) (fun h => absurd h nofun)
    have hclient : e.pClient ≠ none := by simp [hc]
    exact serveWrite_not_pointer hclient (Option.some.inj h)
  | true =>
    rw [← recvData_safe_iff hrun]
    simp only [true_imp_iff]
    unfold serve
    simp only [if_true]
    refine forall_congr' fun n => ⟨fun hsafe u h => ?_, fun hsafe u h => ?_⟩
    · exact hsafe u (Looping.bind_eq_error.mpr (.inl h))
    · rcases Looping.bind_eq_error.mp h with h | ⟨⟨nLen, e'⟩, hrecv, h⟩
      · exact hsafe u h
      · have hclient := recvData_pClient hrun hrecv
        dsimp only at h
        split at h
        · exact absurd h nofun
        · exact serveWrite_not_pointer hclient (Option.some.inj h)

/-- The select client calls `RecvData`. -/
def SelectReads (e : EasyTcpClient δ) (w : WaitResult) : Prop :=
  w.readable = true ∧ ∀ c ∈ e.pClient, 0 ≤ c.sockfd ∧ c.sockfd < CELL_MAX_FD

/-- A descriptor outside the bitmap is no matter of pointers. -/
theorem selectOnRun_outOfBounds {n : ℕ} {c : CELLClient} (hrun : e.isRun = true)
    (hc : e.pClient = some c) (h : ¬(0 ≤ c.sockfd ∧ c.sockfd < CELL_MAX_FD)) :
    (selectOnRun onNetMsg n e w r s).run = some (.error .outOfBounds) := by
  have hderef : e.deref = .ok c := by simp [deref, hc]
  by_cases hmax : c.sockfd < CELL_MAX_FD
  · have hadd : CELLFDSet.zero.add c.sockfd = .error .outOfBounds := by
      rw [CELLFDSet.add, if_pos hmax, if_neg fun h0 => h ⟨h0, hmax⟩]
    simp only [selectOnRun, hrun, if_true, hderef, Looping.lift_ok, pure_bind, hadd]
    rfl
  · have hadd : CELLFDSet.zero.add c.sockfd = .ok .zero := by
      rw [CELLFDSet.add, if_neg hmax]
      rfl
    have hselect : ∀ bNeedWrite sets, CellNet.select (c.sockfd + 1) .zero .zero bNeedWrite sets =
        .error .outOfBounds := fun bNeedWrite sets => by
      unfold CellNet.select
      exact if_pos (Int.lt_add_one_iff.mpr (not_lt.mp hmax))
    simp only [selectOnRun, hrun, if_true, hderef, Looping.lift_ok, pure_bind, hadd, hselect]
    split <;> rfl

/-- What the select client lets a handler do. -/
theorem selectOnRun_safe_iff (hrun : e.isRun = true) :
    (∀ n u, (selectOnRun (ofHandler onNetMsg) n e w r s).run = some (.error u) → ¬u.Pointer) ↔
      (e.SelectReads w → KeepsClient onNetMsg e r) := by
  obtain ⟨c, hc, hderef⟩ := deref_of_isRun hrun
  have hreads : e.SelectReads w ↔
      w.readable = true ∧ 0 ≤ c.sockfd ∧ c.sockfd < CELL_MAX_FD := by
    simp [SelectReads, hc]
  by_cases hfd : 0 ≤ c.sockfd ∧ c.sockfd < CELL_MAX_FD
  · cases w with
    | fail eintr =>
      refine iff_of_true (fun n u h => ?_) (fun h => absurd h.1 nofun)
      rw [selectOnRun_fail hrun hc hfd.1 hfd.2] at h
      exact absurd h nofun
    | ready rd wr =>
      have hrd : e.SelectReads (.ready rd wr) ↔ rd = true :=
        hreads.trans (and_iff_left hfd)
      simp only [selectOnRun_ready hrun hc hfd.1 hfd.2, Looping.map_eq_error, hrd]
      exact serve_safe_iff hrun rd _
  · refine iff_of_true (fun n u h => ?_) (fun h => absurd (hreads.mp h).2 hfd)
    rw [selectOnRun_outOfBounds hrun hc hfd] at h
    obtain rfl : UB.outOfBounds = u := Except.error.inj (Option.some.inj h)
    exact UB.not_pointer_outOfBounds

end EasyTcpClient

/-! ## The epoll client -/

/-- An array of events. -/
structure EventArray where
  id : ℕ
  cells : List EpollEvent
  deriving DecidableEq, Repr

/-- The members of an `EasyEpollClient`, with those of the derived class. -/
structure EpollMembers (δ : Type) where
  /-- The number of the client object. -/
  object : ℕ
  /-- `_pEvents`, `none` for a null pointer. -/
  pEvents : Option EventArray
  /-- The objects and arrays made so far. -/
  made : ℕ
  derived : δ
  deriving DecidableEq, Repr

/-- An `EasyEpollClient`. -/
abbrev EasyEpollClient (δ : Type) :=
  EasyTcpClient (EpollMembers δ)

namespace EasyEpollClient

variable {δ : Type}

/-- `Close`. -/
def close (e : EasyEpollClient δ) : EasyEpollClient δ :=
  { e with pClient := none, isConnect := false, derived := { e.derived with pEvents := none } }

/-- `OnInitSocket`, where `epoll_create` succeeds or not. -/
def onInitSocket (e : EasyEpollClient δ) (created : Bool) : EasyEpollClient δ :=
  if created then
    { e with derived := { e.derived with
      pEvents := some ⟨e.derived.made, [⟨none, false, false⟩]⟩
      made := e.derived.made + 1 } }
  else e

/-- `InitSocket`, with the client made for the socket, if there is one. -/
def initSocket (e : EasyEpollClient δ) (client : Option CELLClient) (created : Bool) :
    EasyEpollClient δ :=
  let e := if e.pClient.isSome then close e else e
  match client with
  | none => e
  | some c =>
    onInitSocket { e with
      pClient := some c
      derived := { e.derived with object := e.derived.made, made := e.derived.made + 1 } } created

/-- `events[i]`, where `events` is the array `id`. -/
def event (e : EasyEpollClient δ) (id i : ℕ) : Exec EpollEvent :=
  match e.derived.pEvents with
  | some array =>
    if array.id = id then
      match array.cells[i]? with
      | some ev => .ok ev
      | none => .error .outOfBounds
    else .error .useAfterFree
  | none => .error .useAfterFree

/-- `*pClient`, where `pClient` is the object `p`. -/
def object (e : EasyEpollClient δ) (p : Ptr) : Exec CELLClient :=
  if e.derived.object = p then
    match e.pClient with
    | some c => .ok c
    | none => .error .useAfterFree
  else .error .useAfterFree

variable (onNetMsg : EasyEpollClient δ → List UInt8 → Exec (EasyEpollClient δ))

/-- `OnRun`, `EPOLLOUT`. -/
def onWrite (s : SendResult) (id i : ℕ) (p : Ptr) (e : EasyEpollClient δ) :
    Exec (EasyEpollClient δ) := do
  if (← event e id i).epollout then
    let c ← object e p
    let (ret, _, c) ← c.sendDataReal s
    let e := e.setClient c
    if SOCKET_ERROR = ret then return close e else return e
  else
    return e

/-- `OnRun`, the event `i`. -/
def onEvent (n : ℕ) (r : RecvResult) (s : SendResult) (id : ℕ) (e : EasyEpollClient δ) (i : ℕ) :
    Looping (EasyEpollClient δ) := do
  match (← event e id i).ptr with
  | none => return e
  | some p =>
    if (← event e id i).epollin then
      let (nLen, e) ← ExceptT.mk (EasyTcpClient.recvData onNetMsg n e r)
      if SOCKET_ERROR = nLen then
        -- the log line reads `pClient->sockfd()`
        let _ ← object e p
        return close e
      else
        onWrite s id i p e
    else
      onWrite s id i p e

/-- `_ep.wait` : its return value, and the events it stored in the array. -/
def wait (e : EasyEpollClient δ) (w : WaitResult) (bNeedWrite : Bool) : ℤ × EasyEpollClient δ :=
  match e.derived.pEvents with
  -- `epoll_create` failed
  | none => (-1, e)
  | some array =>
    let (ret, evs) := (w.epoll bNeedWrite).wait
    let cells := evs.map fun ev => { ev with ptr := some e.derived.object }
    let cells := cells ++ array.cells.drop cells.length
    (ret, { e with derived := { e.derived with pEvents := some { array with cells } } })

/-- `OnRun`, the loop of `RecvData` ended after at most `n` tests. -/
def onRun (n : ℕ) (e : EasyEpollClient δ) (w : WaitResult) (r : RecvResult) (s : SendResult) :
    Looping (Bool × EasyEpollClient δ) :=
  if e.isRun then do
    let c ← e.deref
    let (ret, e) := wait e w c.needWrite
    if ret < 0 then
      return (false, e)
    else if ret = 0 then
      return (true, e)
    else
      match e.derived.pEvents with
      | none => ExceptT.mk (some (.error .nullDeref))
      | some array =>
        let e ← (List.range ret.toNat).foldlM (onEvent onNetMsg n r s array.id) e
        return (true, e)
  else
    return (false, e)

variable {onNetMsg} {e : EasyEpollClient δ} {w : WaitResult} {r : RecvResult} {s : SendResult}
  {id i n : ℕ} {p : Ptr}

/-- The pointers of `OnRun` are good in the state `e`. -/
def PointersGood (e : EasyEpollClient δ) (id i : ℕ) (p : Ptr) : Prop :=
  ∃ array ∈ e.derived.pEvents, array.id = id ∧
    ∀ ev ∈ array.cells[i]?, ev.epollout = true → e.derived.object = p

theorem event_eq {array : EventArray} (h : e.derived.pEvents = some array) {ev : EpollEvent}
    (hev : array.cells[i]? = some ev) : event e array.id i = .ok ev := by
  simp [event, h, hev]

theorem object_eq {c : CELLClient} (hc : e.pClient = some c) :
    object e e.derived.object = .ok c := by
  simp [object, hc]

theorem onWrite_safe_iff (s : SendResult) (hclient : e.pClient ≠ none) :
    (∀ u, onWrite s id i p e = .error u → ¬u.Pointer) ↔ PointersGood e id i p := by
  obtain ⟨c, hc⟩ := Option.ne_none_iff_exists'.mp hclient
  constructor
  · intro hsafe
    by_contra hbad
    refine hsafe .useAfterFree ?_ (.inr rfl)
    cases harray : e.derived.pEvents with
    | none => simp [onWrite, event, harray]
    | some array =>
      by_cases hid : array.id = id
      · obtain ⟨ev, hev, hout, hobject⟩ : ∃ ev, array.cells[i]? = some ev ∧ ev.epollout = true ∧
            e.derived.object ≠ p := by
          by_contra hnone
          refine hbad ⟨array, harray, hid, fun ev hev hout => ?_⟩
          by_contra hobject
          exact hnone ⟨ev, hev, hout, hobject⟩
        subst hid
        simp [onWrite, event_eq harray hev, hout, object, hobject]
      · simp [onWrite, event, harray, hid]
  · rintro ⟨array, harray, rfl, hobject⟩ u h
    have harray : e.derived.pEvents = some array := harray
    unfold onWrite at h
    cases hcell : array.cells[i]? with
    | none =>
      have hevent : event e array.id i = .error .outOfBounds := by simp [event, harray, hcell]
      rw [hevent, Fallible.error_bind] at h
      obtain rfl : UB.outOfBounds = u := Except.error.inj h
      exact UB.not_pointer_outOfBounds
    | some ev =>
      rw [event_eq harray hcell, Fallible.ok_bind] at h
      split at h
      · rename_i hout
        obtain rfl := hobject ev hcell hout
        rw [object_eq hc, Fallible.ok_bind] at h
        rcases Fallible.bind_eq_error.mp h with h | ⟨x, -, h⟩
        · exact (CELLClient.sendDataReal_sat UB.not_pointer_outOfBounds c s).not_pointer h
        · dsimp only at h
          split at h <;> exact absurd h nofun
      · exact absurd h nofun

/-- No handler leaves the client without its connection object, and where `RecvData` comes
back behind them the event array is still there, and so is the object, if it is to send. -/
structure KeepsPointers (onNetMsg : EasyEpollClient δ → List UInt8 → Exec (EasyEpollClient δ))
    (e : EasyEpollClient δ) (r : RecvResult) (id i : ℕ) (p : Ptr) : Prop where
  client : EasyTcpClient.KeepsClient onNetMsg e r
  pointers : ∀ e₁ e₂, e.Drains r e₁ → (EasyTcpClient.drain onNetMsg).Passes e₁ e₂ →
    (EasyTcpClient.drain onNetMsg).body e₂ = .ok none → PointersGood e₂ id i p

/-- What an event lets a handler do. -/
theorem onEvent_safe_iff {array : EventArray} {ev : EpollEvent} (hrun : e.isRun = true)
    (harray : e.derived.pEvents = some array) (hev : array.cells[i]? = some ev)
    (hptr : ev.ptr = some e.derived.object) :
    (∀ n u, (onEvent (ofHandler onNetMsg) n r s array.id e i).run = some (.error u) → ¬u.Pointer) ↔
      (ev.epollin = true → KeepsPointers onNetMsg e r array.id i e.derived.object) := by
  have hgood : PointersGood e array.id i e.derived.object := ⟨array, harray, rfl, fun _ _ _ => rfl⟩
  obtain ⟨c, hc, -⟩ := EasyTcpClient.deref_of_isRun hrun
  have hclient : e.pClient ≠ none := by simp [hc]
  unfold onEvent
  simp only [event_eq harray hev, Looping.lift_ok, pure_bind, hptr]
  cases hin : ev.epollin with
  | false =>
    refine iff_of_true (fun n u h => ?_) (fun h => absurd h nofun)
    exact (onWrite_safe_iff s hclient).mpr hgood u (Option.some.inj h)
  | true =>
    simp only [if_true, true_imp_iff]
    constructor
    · intro hsafe
      refine ⟨(EasyTcpClient.recvData_safe_iff hrun).mp fun n u h => ?_,
        fun e₁ e₂ hdrains hpasses hexit => ?_⟩
      · exact hsafe n u (Looping.bind_eq_error.mpr (.inl h))
      · have hends : (EasyTcpClient.drain (ofHandler onNetMsg)).Ends e₂ (.ok e₂) :=
          Loop.ends_of_exit (EasyTcpClient.drain_body_ofHandler.mpr hexit)
        obtain ⟨n, hn⟩ := (EasyTcpClient.passes_ofHandler.mpr hpasses).ends hends
        refine (onWrite_safe_iff s (hdrains.passes_pClient hpasses)).mp fun u h => ?_
        obtain ⟨-, nLen, hrecv, hpos⟩ := hdrains
        have hret : EasyTcpClient.recvData (ofHandler onNetMsg) n e r = some (.ok (nLen, e₂)) := by
          simp only [EasyTcpClient.recvData, hrun, if_true, hrecv, if_pos hpos, hn]
          rfl
        have hne : SOCKET_ERROR ≠ nLen := by
          rintro rfl
          exact absurd hpos (by decide)
        refine hsafe n u (Looping.bind_eq_error.mpr (.inr ⟨(nLen, e₂), hret, ?_⟩))
        simp only [if_neg hne]
        exact congrArg some h
    · intro hkeeps n u h
      rcases Looping.bind_eq_error.mp h with h | ⟨⟨nLen, e'⟩, hrecv, h⟩
      · exact (EasyTcpClient.recvData_safe_iff hrun).mpr hkeeps.client n u h
      · rcases EasyTcpClient.recvData_cases hrun hrecv with ⟨v, hv, -⟩ | ⟨k, c', hx, -⟩ |
          ⟨k, e₁, y, hpos, hdrains, hy, hx⟩
        · cases hv
        · obtain ⟨rfl, rfl⟩ := Prod.mk.inj (Except.ok.inj hx)
          have hobject : object (e.setClient c') e.derived.object = .ok c' :=
            object_eq (e := e.setClient c') rfl
          dsimp only at h
          split at h
          · rw [hobject] at h
            cases h
          · have hgood' : PointersGood (e.setClient c') array.id i e.derived.object := hgood
            exact (onWrite_safe_iff s (Option.some_ne_none c')).mpr hgood' u (Option.some.inj h)
        · obtain ⟨e₂, rfl, heq⟩ := Exec.map_eq_ok.mp hx.symm
          obtain ⟨rfl, rfl⟩ := Prod.mk.inj heq
          have hends : (EasyTcpClient.drain (ofHandler onNetMsg)).Ends e₁ (.ok e₂) := ⟨n, hy⟩
          obtain ⟨hpasses, hexit⟩ := hends.passes
          have hpasses' := EasyTcpClient.passes_ofHandler.mp hpasses
          have hgood' := hkeeps.pointers e₁ e₂ hdrains hpasses'
            (EasyTcpClient.drain_body_ofHandler.mp hexit)
          have hne : SOCKET_ERROR ≠ k := by
            rintro rfl
            exact absurd hpos (by decide)
          simp only [if_neg hne] at h
          have hsafe := (onWrite_safe_iff s (hdrains.passes_pClient hpasses')).mpr hgood'
          exact hsafe u (Option.some.inj h)

/-- The client behind `_ep.wait`. -/
def waited (e : EasyEpollClient δ) (w : WaitResult) : EasyEpollClient δ :=
  match e.pClient with
  | some c => (wait e w c.needWrite).2
  | none => e

/-- What the epoll client lets a handler do. -/
theorem onRun_safe_iff (hrun : e.isRun = true) :
    (∀ n u, (onRun (ofHandler onNetMsg) n e w r s).run = some (.error u) → ¬u.Pointer) ↔
      (w.readable = true → ∀ array ∈ e.derived.pEvents,
        KeepsPointers onNetMsg (waited e w) r array.id 0 e.derived.object) := by
  obtain ⟨c, hc, hderef⟩ := EasyTcpClient.deref_of_isRun hrun
  have hwaited : waited e w = (wait e w c.needWrite).2 := by simp [waited, hc]
  cases harray : e.derived.pEvents with
  | none =>
    refine iff_of_true (fun n u h => ?_) (fun _ array h => by cases h)
    simp [onRun, hrun, hderef, wait, harray] at h
  | some array =>
    cases w with
    | fail eintr =>
      refine iff_of_true (fun n u h => ?_) (fun h => by cases h)
      cases eintr <;>
        simp [onRun, hrun, hderef, wait, harray, WaitResult.epoll, EpollResult.wait] at h
    | ready rd wr =>
      by_cases hready : (rd || (c.needWrite && wr)) = true
      · -- one event, for this client
        let ev : EpollEvent := ⟨some e.derived.object, rd, c.needWrite && wr⟩
        let array' : EventArray := ⟨array.id, ev :: array.cells.drop 1⟩
        let e₀ : EasyEpollClient δ :=
          { e with derived := { e.derived with pEvents := some array' } }
        have hwait : wait e (.ready rd wr) c.needWrite = (1, e₀) := by
          simp [wait, harray, WaitResult.epoll, EpollResult.wait, hready, e₀, array', ev]
        have hrun₀ : e₀.isRun = true := hrun
        have harray₀ : e₀.derived.pEvents = some array' := rfl
        have hcell : array'.cells[0]? = some ev := rfl
        have honRun : ∀ n, onRun (ofHandler onNetMsg) n e (.ready rd wr) r s =
            (true, ·) <$> onEvent (ofHandler onNetMsg) n r s array'.id e₀ 0 := fun n => by
          have hfold : (List.range (1 : ℤ).toNat).foldlM
              (onEvent (ofHandler onNetMsg) n r s array'.id) e₀ =
                onEvent (ofHandler onNetMsg) n r s array'.id e₀ 0 := bind_pure _
          simp only [onRun, hrun, if_true, hderef, Looping.lift_ok, pure_bind, hwait, harray₀,
            hfold]
          rw [if_neg (by decide), if_neg (by decide), map_eq_pure_bind]
        simp only [honRun, Looping.map_eq_error, onEvent_safe_iff hrun₀ harray₀ hcell rfl]
        refine ⟨fun h hrd array₁ harray₁ => ?_, fun h hrd => ?_⟩
        · obtain rfl := Option.some.inj harray₁
          rw [hwaited, hwait]
          exact h hrd
        · have hkeeps := h hrd array rfl
          rw [hwaited, hwait] at hkeeps
          exact hkeeps
      · have hrd : rd = false := by
          by_contra hrd
          simp [hrd] at hready
        have hevs : (WaitResult.ready rd wr).epoll c.needWrite = .events [] := if_neg hready
        refine iff_of_true (fun n u h => ?_) (fun h => absurd (hrd.symm.trans h) Bool.false_ne_true)
        simp [onRun, hrun, hderef, wait, harray, hevs, EpollResult.wait] at h

end EasyEpollClient

open EasyTcpClient EasyEpollClient in
/-- Handlers that close the client. For every handler, every client and all results of the
calls, `RecvData`, the `OnRun` of the select client and the `OnRun` of the epoll client do not
use a null pointer, a deleted client or a freed event array exactly when the handlers they call
leave the client its connection object, and, in the epoll client, the event array it reads and
the object it sends with. -/
theorem handlers_may_close_iff {δ : Type}
    (onNetMsg : EasyTcpClient δ → List UInt8 → Exec (EasyTcpClient δ)) (e : EasyTcpClient δ)
    (onNetMsg' : EasyEpollClient δ → List UInt8 → Exec (EasyEpollClient δ))
    (e' : EasyEpollClient δ) (w : WaitResult) (r : RecvResult) (s : SendResult) :
    ((∀ n u, recvData (ofHandler onNetMsg) n e r = some (.error u) → ¬u.Pointer) ↔
      (e.isRun = true → KeepsClient onNetMsg e r)) ∧
    ((∀ n u, (selectOnRun (ofHandler onNetMsg) n e w r s).run = some (.error u) → ¬u.Pointer) ↔
      (e.isRun = true → e.SelectReads w → KeepsClient onNetMsg e r)) ∧
    ((∀ n u, (onRun (ofHandler onNetMsg') n e' w r s).run = some (.error u) → ¬u.Pointer) ↔
      (e'.isRun = true → w.readable = true → ∀ array ∈ e'.derived.pEvents,
        KeepsPointers onNetMsg' (waited e' w) r array.id 0 e'.derived.object)) := by
  refine ⟨?_, ?_, ?_⟩
  · by_cases hrun : e.isRun = true
    · rw [recvData_safe_iff hrun]
      exact ⟨fun h _ => h, fun h => h hrun⟩
    · simp [recvData, hrun]
  · by_cases hrun : e.isRun = true
    · rw [selectOnRun_safe_iff hrun]
      exact ⟨fun h _ => h, fun h => h hrun⟩
    · simp [selectOnRun, hrun]
  · by_cases hrun : e'.isRun = true
    · rw [onRun_safe_iff hrun]
      exact ⟨fun h _ => h, fun h => h hrun⟩
    · simp [onRun, hrun]

/-- The outcome of a call, if it is a fault. -/
def faultOf {α : Type} : Exec α → Option UB
  | .ok _ => none
  | .error u => some u

open EasyTcpClient EasyEpollClient in
/-- A handler that calls `Close` has `RecvData` pop from a null pointer, and one that calls
`InitSocket` has the epoll client read a freed event array. -/
theorem not_handlers_may_close :
    (¬∀ (onNetMsg : EasyTcpClient Unit → List UInt8 → Exec (EasyTcpClient Unit)) e r n u,
      recvData (ofHandler onNetMsg) n e r = some (.error u) → ¬u.Pointer) ∧
    ¬∀ (onNetMsg : EasyEpollClient Unit → List UInt8 → Exec (EasyEpollClient Unit)) e w r s n u,
      (onRun (ofHandler onNetMsg) n e w r s).run = some (.error u) → ¬u.Pointer := by
  let r : RecvResult := .avail [4, 0, 3, 0]
  constructor
  · intro hall
    let onClose (e : EasyTcpClient Unit) (_ : List UInt8) : Exec (EasyTcpClient Unit) :=
      .ok e.close
    let e : EasyTcpClient Unit := ⟨some connectedClient, true, ()⟩
    have heval : (recvData (ofHandler onClose) 1 e r).map faultOf = some (some .nullDeref) := by
      decide +kernel
    obtain ⟨x, hx, hfault⟩ := Option.map_eq_some_iff.mp heval
    cases x with
    | ok _ => exact absurd hfault nofun
    | error u => exact hall onClose e r 1 u hx (.inl (Option.some.inj hfault))
  · intro hall
    let onInit (e : EasyEpollClient Unit) (_ : List UInt8) : Exec (EasyEpollClient Unit) :=
      .ok (EasyEpollClient.initSocket e (some connectedClient) true)
    let start : EasyEpollClient Unit := ⟨none, false, ⟨0, none, 0, ()⟩⟩
    let e : EasyEpollClient Unit :=
      { EasyEpollClient.initSocket start (some connectedClient) true with isConnect := true }
    have heval : (onRun (ofHandler onInit) 2 e (.ready true false) r .fail).run.map faultOf =
        some (some .useAfterFree) := by
      decide +kernel
    obtain ⟨x, hx, hfault⟩ := Option.map_eq_some_iff.mp heval
    cases x with
    | ok _ => exact absurd hfault nofun
    | error u => exact hall onInit e _ r .fail 2 u hx (.inr (Option.some.inj hfault))

end CellNet
