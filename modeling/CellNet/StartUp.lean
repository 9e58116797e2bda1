import CellNet.Fallible
import CellNet.WorkThread
import Mathlib.Data.List.Nodup

/-!
# Stopping the client program

Each `WorkThread` of the client program allocates its clients, connects them, waits for the
other threads, lets the clients work, and closes and deletes them. Every loop but the last
one ends when the thread is stopped. `loadClient` is the threads, step by step, in any
order, with any outcomes of their system calls and stopped at any moment.

`stop_in_start_up_iff` : the last loop finds every client allocated exactly when no thread
is found to be stopped by its loop that allocates them.
-/

namespace CellNet

/-! ## The threads -/

/-- The settings of the program. -/
structure LoadConfig where
  nThread : ℕ
  nClient : ℕ
  nMsg : ℤ
  nSendSleep : ℤ
  bCheckMsgID : Bool
  login : NetmsgLogin

/-- `clients[n]`. -/
inductive ClientSlot
  | null
  | live (e : EasyTcpClient MyClient)
  | deleted

/-- What a thread may break. -/
inductive LoadFault
  /-- A use of a client that was not allocated. -/
  | notAllocated
  /-- A use of a deleted client. -/
  | deleted
  /-- A call on a client that is undefined. -/
  | call (u : UB)
  deriving DecidableEq

/-- Where a `WorkThread` is. -/
inductive LoadPC
  /-- The loop that allocates the clients. -/
  | alloc (n : ℕ)
  /-- The loop that connects them. -/
  | connect (n : ℕ)
  /-- `readyCount++`. -/
  | ready
  /-- The loop that waits for the other threads. -/
  | wait
  /-- The test of the main loop. -/
  | work
  /-- The loops that call `SendTest`. -/
  | send (m n : ℕ)
  /-- The loop that calls `OnRun`. -/
  | onRun (n : ℕ)
  /-- The loop that closes the clients. -/
  | close (n : ℕ)
  /-- `delete clients[n]`. -/
  | delete (n : ℕ)
  /-- `--readyCount`. -/
  | exit
  | done
  deriving DecidableEq

/-- A `WorkThread`, with the clients it has closed and deleted. -/
structure LoadThread where
  isRun : Bool
  pc : LoadPC
  clients : List ClientSlot
  closed : List ℕ
  deleted : List ℕ

/-- The counts the threads share. -/
structure LoadCounts where
  readyCount : ℤ
  nConnect : ℤ
  sendCount : ℤ

/-- What the system calls of a step return. -/
structure LoadSys where
  connect : ConnectResult
  wait : WaitResult
  recv : RecvResult
  send : SendResult
  dt : ℤ

/-- `InitSocket`, with the client made for the socket, if there is one. -/
def EasyTcpClient.initSocket {δ : Type} (e : EasyTcpClient δ) (client : Option CELLClient) :
    EasyTcpClient δ :=
  let e := if e.pClient.isSome then e.close else e
  match client with
  | none => e
  | some c => e.setClient c

namespace LoadThread

variable (cfg : LoadConfig)

/-- A thread that was just started. -/
def new : LoadThread :=
  ⟨true, .alloc 0, .replicate cfg.nClient .null, [], []⟩

/-- `*clients[n]`. -/
def client (th : LoadThread) (n : ℕ) : Except LoadFault (EasyTcpClient MyClient) :=
  match th.clients[n]? with
  | some (.live e) => .ok e
  | some .deleted => .error .deleted
  | _ => .error .notAllocated

/-- The client `n` now in the state `e`. -/
def setClient (th : LoadThread) (n : ℕ) (e : EasyTcpClient MyClient) : LoadThread :=
  { th with clients := th.clients.set n (.live e) }

/-- The thread at `pc`. -/
def goto (th : LoadThread) (pc : LoadPC) : LoadThread :=
  { th with pc }

/-- A call on a client. -/
def call {α : Type} (x : Exec α) : Except LoadFault α :=
  x.mapError .call

/-- A pass of the loop that connects the clients. -/
def connect (c : LoadCounts) (th : LoadThread) (n : ℕ) (r : ConnectResult) :
    Except LoadFault (LoadCounts × LoadThread) :=
  if n < cfg.nClient ∧ th.isRun then do
    let e ← th.client n
    match r with
    | .noSocket => return (c, (th.setClient n (e.initSocket none)).goto .ready)
    | .refused cl => return (c, (th.setClient n (e.initSocket (some cl))).goto .ready)
    | .connected cl =>
      let e := { e.initSocket (some cl) with isConnect := true }
      return ({ c with nConnect := c.nConnect + 1 }, (th.setClient n e).goto (.connect (n + 1)))
  else
    return (c, th.goto .ready)

/-- A pass of the loops that call `SendTest`. -/
def send (c : LoadCounts) (th : LoadThread) (m n : ℕ) :
    Except LoadFault (LoadCounts × LoadThread) :=
  if (m : ℤ) < cfg.nMsg then
    if n < cfg.nClient then do
      let e ← th.client n
      if e.isRun then
        let (ret, e) ← call (MyClient.sendTest e cfg.login)
        let c := if 0 < ret then { c with sendCount := int32 (c.sendCount + 1) } else c
        return (c, (th.setClient n e).goto (.send m (n + 1)))
      else
        return (c, th.goto (.send m (n + 1)))
    else
      return (c, th.goto (.send (m + 1) 0))
  else
    return (c, th.goto (.onRun 0))

/-- A pass of the loop that calls `OnRun`, in which a loop ends after at most `fuel` tests. -/
def onRun (fuel : ℕ) (c : LoadCounts) (th : LoadThread) (n : ℕ) (sys : LoadSys) :
    Option (Except LoadFault (LoadCounts × LoadThread)) :=
  if n < cfg.nClient then
    match th.client n with
    | .error u => some (.error u)
    | .ok e =>
      if e.isRun then
        (e.epollOnRun MyClient.onNetMsg fuel sys.wait sys.recv sys.send).run.map fun x => do
          let (ret, e) ← call x
          if ret then
            let (_, derived) := MyClient.checkSend cfg.nMsg cfg.nSendSleep e.derived sys.dt
            return (c, (th.setClient n { e with derived }).goto (.onRun (n + 1)))
          else
            return ({ c with nConnect := c.nConnect - 1 },
              (th.setClient n e).goto (.onRun (n + 1)))
      else
        some (.ok (c, th.goto (.onRun (n + 1))))
  else
    some (.ok (c, th.goto .work))

/-- The next step of a thread. -/
def next (fuel : ℕ) (c : LoadCounts) (th : LoadThread) (sys : LoadSys) :
    Option (Except LoadFault (LoadCounts × LoadThread)) :=
  match th.pc with
  | .alloc n =>
    if n < cfg.nClient ∧ th.isRun then
      some (.ok (c, (th.setClient n ⟨none, false, .new cfg.bCheckMsgID⟩).goto (.alloc (n + 1))))
    else
      some (.ok (c, th.goto (.connect 0)))
  | .connect n => some (th.connect cfg c n sys.connect)
  | .ready => some (.ok ({ c with readyCount := c.readyCount + 1 }, th.goto .wait))
  | .wait =>
    some (.ok (c, if c.readyCount < cfg.nThread ∧ th.isRun then th else th.goto .work))
  | .work => some (.ok (c, th.goto (if th.isRun then .send 0 0 else .close 0)))
  | .send m n => some (th.send cfg c m n)
  | .onRun n => th.onRun cfg fuel c n sys
  | .close n =>
    if n < cfg.nClient then
      some (do
        let e ← th.client n
        return (c, { (th.setClient n e.close).goto (.delete n) with closed := th.closed ++ [n] }))
    else
      some (.ok (c, th.goto .exit))
  | .delete n =>
    match th.clients[n]? with
    | some (.live _) => some (.ok (c, { th with
        pc := .close (n + 1)
        clients := th.clients.set n .deleted
        deleted := th.deleted ++ [n] }))
    | some .deleted => some (.error .deleted)
    -- a null pointer may be deleted
    | _ => some (.ok (c, th.goto (.close (n + 1))))
  | .exit => some (.ok ({ c with readyCount := c.readyCount - 1 }, th.goto .done))
  | .done => none

end LoadThread

/-- The client program. -/
structure LoadClient where
  counts : LoadCounts
  threads : List LoadThread

/-- What can happen. -/
inductive LoadAct
  /-- The thread `i` takes its next step. -/
  | step (i : ℕ) (sys : LoadSys)
  /-- `isRun()` of the thread `i` turns false. -/
  | stop (i : ℕ)

namespace LoadClient

variable (cfg : LoadConfig)

/-- The threads have been started. -/
def new : LoadClient :=
  ⟨⟨0, 0, 0⟩, .replicate cfg.nThread (.new cfg)⟩

/-- One action, in which a loop ends after at most `fuel` tests. -/
def act (fuel : ℕ) (s : LoadClient) : LoadAct → Option (Except LoadFault LoadClient)
  | .step i sys => s.threads[i]?.bind fun th =>
      (th.next cfg fuel s.counts sys).map fun x => do
        let (counts, th) ← x
        return ⟨counts, s.threads.set i th⟩
  | .stop i => s.threads[i]?.map fun th =>
      .ok { s with threads := s.threads.set i { th with isRun := false } }

end LoadClient

/-- The client program, with its threads in any order. -/
def loadClient (cfg : LoadConfig) : Machine LoadClient LoadAct LoadFault :=
  .ofFn (fun s => s = .new cfg) (fun _ _ => True) (LoadClient.act cfg)

/-! ## What a step does -/

/-- What a slot holds. -/
inductive SlotKind
  | null
  | live
  | deleted
  deriving DecidableEq

def ClientSlot.kind : ClientSlot → SlotKind
  | null => .null
  | live _ => .live
  | deleted => .deleted

namespace LoadThread

variable {cfg : LoadConfig} {c c' : LoadCounts} {th th' : LoadThread} {sys : LoadSys} {n : ℕ}
  {e : EasyTcpClient MyClient} {fuel : ℕ}

/-- What the slots hold. -/
def kinds (th : LoadThread) : List SlotKind :=
  th.clients.map ClientSlot.kind

@[simp] theorem kinds_goto (th : LoadThread) (pc : LoadPC) : (th.goto pc).kinds = th.kinds :=
  rfl

theorem kinds_setClient (th : LoadThread) (n : ℕ) (e : EasyTcpClient MyClient) :
    (th.setClient n e).kinds = th.kinds.set n .live :=
  List.map_set

theorem client_eq_ok : th.client n = .ok e ↔ th.clients[n]? = some (.live e) := by
  unfold client
  split <;> simp_all

/-- A client that was used stays allocated. -/
theorem kinds_setClient_of_ok (h : th.client n = .ok e) (e' : EasyTcpClient MyClient) :
    (th.setClient n e').kinds = th.kinds := by
  have hkind : th.kinds[n]? = some .live := by
    rw [kinds, List.getElem?_map, client_eq_ok.mp h]
    rfl
  obtain ⟨hlt, hget⟩ := List.getElem?_eq_some_iff.mp hkind
  rw [kinds_setClient, ← hget]
  exact List.set_getElem_self hlt

/-- The loops between those that allocate and those that close the clients. -/
def Working : LoadPC → Prop
  | .connect _ | .ready | .wait | .work | .send _ _ | .onRun _ => True
  | _ => False

/-- Those of them that a thread that is stopped goes through. -/
def Idle : LoadPC → Prop
  | .connect _ | .ready | .wait | .work => True
  | _ => False

/-- What a step between the two leaves as it is. -/
structure Worked (th th' : LoadThread) : Prop where
  isRun : th'.isRun = th.isRun
  kinds : th'.kinds = th.kinds
  closed : th'.closed = th.closed
  deleted : th'.deleted = th.deleted
  pc : Working th'.pc ∨ th'.pc = .close 0
  idle : th.isRun = false → Idle th.pc → Idle th'.pc ∨ th'.pc = .close 0

theorem Worked.goto {pc : LoadPC} (hpc : Working pc ∨ pc = .close 0)
    (hidle : th.isRun = false → Idle th.pc → Idle pc ∨ pc = .close 0) :
    th.Worked (th.goto pc) :=
  ⟨rfl, rfl, rfl, rfl, hpc, hidle⟩

theorem Worked.setClient {pc : LoadPC} (h : th.client n = .ok e) (e' : EasyTcpClient MyClient)
    (hpc : Working pc ∨ pc = .close 0)
    (hidle : th.isRun = false → Idle th.pc → Idle pc ∨ pc = .close 0) :
    th.Worked ((th.setClient n e').goto pc) :=
  ⟨rfl, kinds_setClient_of_ok h e', rfl, rfl, hpc, hidle⟩

theorem worked_connect {r : ConnectResult} (h : th.connect cfg c n r = .ok (c', th')) :
    th.Worked th' := by
  unfold connect at h
  split at h
  · rename_i hcond
    have hidle : ∀ pc, th.isRun = false → Idle th.pc → Idle pc ∨ pc = .close 0 :=
      fun _ hstop => absurd hcond.2 (by simp [hstop])
    obtain ⟨e, he, h⟩ := Fallible.bind_eq_ok.mp h
    cases r with
    | noSocket | refused =>
      obtain rfl := (Prod.mk.inj (Except.ok.inj h)).2
      exact .setClient he _ (.inl trivial) (hidle _)
    | connected =>
      obtain rfl := (Prod.mk.inj (Except.ok.inj h)).2
      exact .setClient he _ (.inl trivial) (hidle _)
  · obtain rfl := (Prod.mk.inj (Except.ok.inj h)).2
    exact .goto (.inl trivial) fun _ _ => .inl trivial

theorem worked_send {m : ℕ} (hpc : th.pc = .send m n) (h : th.send cfg c m n = .ok (c', th')) :
    th.Worked th' := by
  have hidle : ∀ pc, th.isRun = false → Idle th.pc → Idle pc ∨ pc = .close 0 :=
    fun _ _ hpc' => by
      rw [hpc] at hpc'
      exact hpc'.elim
  unfold send at h
  split at h
  · split at h
    · obtain ⟨e, he, h⟩ := Fallible.bind_eq_ok.mp h
      split at h
      · obtain ⟨⟨ret, e'⟩, -, h⟩ := Fallible.bind_eq_ok.mp h
        obtain rfl := (Prod.mk.inj (Except.ok.inj h)).2
        exact .setClient he _ (.inl trivial) (hidle _)
      · obtain rfl := (Prod.mk.inj (Except.ok.inj h)).2
        exact .goto (.inl trivial) (hidle _)
    · obtain rfl := (Prod.mk.inj (Except.ok.inj h)).2
      exact .goto (.inl trivial) (hidle _)
  · obtain rfl := (Prod.mk.inj (Except.ok.inj h)).2
    exact .goto (.inl trivial) (hidle _)

theorem worked_onRun (hpc : th.pc = .onRun n)
    (h : th.onRun cfg fuel c n sys = some (.ok (c', th'))) : th.Worked th' := by
  have hidle : ∀ pc, th.isRun = false → Idle th.pc → Idle pc ∨ pc = .close 0 :=
    fun _ _ hpc' => by
      rw [hpc] at hpc'
      exact hpc'.elim
  unfold onRun at h
  split at h
  · split at h
    · exact absurd (Option.some.inj h) nofun
    · rename_i e he
      split at h
      · obtain ⟨x, -, h⟩ := Option.map_eq_some_iff.mp h
        obtain ⟨⟨ret, e'⟩, -, h⟩ := Fallible.bind_eq_ok.mp h
        dsimp only at h
        split at h <;>
        · obtain rfl := (Prod.mk.inj (Except.ok.inj h)).2
          exact .setClient he _ (.inl trivial) (hidle _)
      · obtain rfl := (Prod.mk.inj (Except.ok.inj (Option.some.inj h))).2
        exact .goto (.inl trivial) (hidle _)
  · obtain rfl := (Prod.mk.inj (Except.ok.inj (Option.some.inj h))).2
    exact .goto (.inl trivial) (hidle _)

/-- What a step of a thread does to its clients. -/
inductive Moved (nClient : ℕ) (th : LoadThread) : LoadThread → Prop
  | alloc {n : ℕ} {e : EasyTcpClient MyClient} (hpc : th.pc = .alloc n) (hn : n < nClient)
    (hrun : th.isRun = true) : Moved nClient th ((th.setClient n e).goto (.alloc (n + 1)))
  | skip {n : ℕ} (hpc : th.pc = .alloc n) (hstop : ¬(n < nClient ∧ th.isRun)) :
    Moved nClient th (th.goto (.connect 0))
  | work {th' : LoadThread} (hpc : Working th.pc) (h : th.Worked th') : Moved nClient th th'
  | close {n : ℕ} {e e' : EasyTcpClient MyClient} (hpc : th.pc = .close n) (hn : n < nClient)
    (he : th.client n = .ok e) : Moved nClient th
      { (th.setClient n e').goto (.delete n) with closed := th.closed ++ [n] }
  | leave {n : ℕ} (hpc : th.pc = .close n) (hn : ¬n < nClient) : Moved nClient th (th.goto .exit)
  | delete {n : ℕ} {e : EasyTcpClient MyClient} (hpc : th.pc = .delete n)
    (he : th.client n = .ok e) : Moved nClient th { th with
      pc := .close (n + 1)
      clients := th.clients.set n .deleted
      deleted := th.deleted ++ [n] }
  | deleteNull {n : ℕ} (hpc : th.pc = .delete n) (he : th.client n = .error .notAllocated) :
    Moved nClient th (th.goto (.close (n + 1)))
  | exit (hpc : th.pc = .exit) : Moved nClient th (th.goto .done)

theorem moved (h : th.next cfg fuel c sys = some (.ok (c', th'))) : th.Moved cfg.nClient th' := by
  unfold next at h
  split at h
  · rename_i n hpc
    split at h
    · rename_i hcond
      obtain rfl := (Prod.mk.inj (Except.ok.inj (Option.some.inj h))).2
      exact .alloc hpc hcond.1 hcond.2
    · rename_i hcond
      obtain rfl := (Prod.mk.inj (Except.ok.inj (Option.some.inj h))).2
      exact .skip hpc hcond
  · rename_i hpc
    exact .work (hpc ▸ trivial) (worked_connect (Option.some.inj h))
  · rename_i hpc
    obtain rfl := (Prod.mk.inj (Except.ok.inj (Option.some.inj h))).2
    exact .work (hpc ▸ trivial) (.goto (.inl trivial) fun _ _ => .inl trivial)
  · rename_i hpc
    obtain rfl := (Prod.mk.inj (Except.ok.inj (Option.some.inj h))).2
    refine .work (hpc ▸ trivial) ?_
    split
    · have hsame : th.Worked (th.goto th.pc) :=
        .goto (.inl (hpc ▸ trivial)) fun _ _ => .inl (hpc ▸ trivial)
      exact hsame
    · exact .goto (.inl trivial) fun _ _ => .inl trivial
  · rename_i hpc
    obtain rfl := (Prod.mk.inj (Except.ok.inj (Option.some.inj h))).2
    refine .work (hpc ▸ trivial) ?_
    split
    · rename_i hrun
      exact .goto (.inl trivial) fun hstop => absurd hrun (by simp [hstop])
    · exact .goto (.inr rfl) fun _ _ => .inr rfl
  · rename_i hpc
    exact .work (hpc ▸ trivial) (worked_send hpc (Option.some.inj h))
  · rename_i hpc
    exact .work (hpc ▸ trivial) (worked_onRun hpc h)
  · rename_i n hpc
    split at h
    · obtain ⟨e, he, h⟩ := Fallible.bind_eq_ok.mp (Option.some.inj h)
      obtain rfl := (Prod.mk.inj (Except.ok.inj h)).2
      exact .close hpc ‹_› he
    · obtain rfl := (Prod.mk.inj (Except.ok.inj (Option.some.inj h))).2
      exact .leave hpc ‹_›
  · rename_i n hpc
    split at h
    · rename_i e he
      obtain rfl := (Prod.mk.inj (Except.ok.inj (Option.some.inj h))).2
      exact .delete hpc (client_eq_ok.mpr he)
    · exact absurd (Option.some.inj h) nofun
    · rename_i hlive hdel
      obtain rfl := (Prod.mk.inj (Except.ok.inj (Option.some.inj h))).2
      exact .deleteNull hpc (by unfold client; split <;> simp_all)
  · obtain rfl := (Prod.mk.inj (Except.ok.inj (Option.some.inj h))).2
    exact .exit ‹_›
  · exact absurd h nofun

theorem client_of_kind (h : th.kinds[n]? = some .live) : ∃ e, th.client n = .ok e := by
  rw [kinds, List.getElem?_map] at h
  obtain ⟨slot, hslot, hkind⟩ := Option.map_eq_some_iff.mp h
  cases slot with
  | live e => exact ⟨e, client_eq_ok.mpr hslot⟩
  | null | deleted => exact absurd hkind nofun

/-- A client that is not there. -/
theorem kinds_of_client {u : LoadFault} (h : th.client n = .error u) :
    th.kinds[n]? ≠ some .live := by
  intro hkind
  obtain ⟨e, he⟩ := client_of_kind hkind
  exact absurd (h.symm.trans he) nofun

/-- The client `n` is used next. -/
def Uses (nClient : ℕ) (th : LoadThread) (n : ℕ) : Prop :=
  (n < nClient ∧ (Working th.pc ∨ th.pc = .close n)) ∨ th.pc = .delete n

/-- Where a client is used that is not there. -/
theorem faulted {u : LoadFault} (hu : u = .notAllocated ∨ u = .deleted)
    (h : th.next cfg fuel c sys = some (.error u)) :
    ∃ n, th.Uses cfg.nClient n ∧ th.kinds[n]? ≠ some .live := by
  have hcall : ∀ {α : Type} (x : Exec α), call x ≠ .error u := by
    intro α x hx
    cases x with
    | ok a => exact absurd hx nofun
    | error v =>
      obtain rfl : LoadFault.call v = u := Except.error.inj hx
      rcases hu with hu | hu <;> exact absurd hu nofun
  unfold next at h
  split at h
  · split at h <;> exact absurd (Option.some.inj h) nofun
  · rename_i n hpc
    have h := Option.some.inj h
    unfold connect at h
    split at h
    · rename_i hcond
      rcases Fallible.bind_eq_error.mp h with h | ⟨e, -, h⟩
      · exact ⟨n, .inl ⟨hcond.1, .inl (hpc ▸ trivial)⟩, kinds_of_client h⟩
      · split at h <;> exact absurd h nofun
    · exact absurd h nofun
  · exact absurd (Option.some.inj h) nofun
  · exact absurd (Option.some.inj h) nofun
  · exact absurd (Option.some.inj h) nofun
  · rename_i m n hpc
    have h := Option.some.inj h
    unfold send at h
    split at h
    · split at h
      · rename_i hn
        rcases Fallible.bind_eq_error.mp h with h | ⟨e, -, h⟩
        · exact ⟨n, .inl ⟨hn, .inl (hpc ▸ trivial)⟩, kinds_of_client h⟩
        · split at h
          · rcases Fallible.bind_eq_error.mp h with h | ⟨x, -, h⟩
            · exact absurd h (hcall _)
            · exact absurd h nofun
          · exact absurd h nofun
      · exact absurd h nofun
    · exact absurd h nofun
  · rename_i n hpc
    unfold onRun at h
    split at h
    · rename_i hn
      split at h
      · rename_i he
        exact ⟨n, .inl ⟨hn, .inl (hpc ▸ trivial)⟩, kinds_of_client he⟩
      · split at h
        · obtain ⟨x, -, h⟩ := Option.map_eq_some_iff.mp h
          rcases Fallible.bind_eq_error.mp h with h | ⟨y, -, h⟩
          · exact absurd h (hcall _)
          · dsimp only at h
            split at h <;> exact absurd h nofun
        · exact absurd (Option.some.inj h) nofun
    · exact absurd (Option.some.inj h) nofun
  · rename_i n hpc
    split at h
    · rename_i hn
      rcases Fallible.bind_eq_error.mp (Option.some.inj h) with h | ⟨e, -, h⟩
      · exact ⟨n, .inl ⟨hn, .inr hpc⟩, kinds_of_client h⟩
      · exact absurd h nofun
    · exact absurd (Option.some.inj h) nofun
  · rename_i n hpc
    split at h
    · exact absurd (Option.some.inj h) nofun
    · rename_i hdel
      refine ⟨n, .inr hpc, ?_⟩
      rw [kinds, List.getElem?_map, hdel]
      exact nofun
    · exact absurd (Option.some.inj h) nofun
  · exact absurd (Option.some.inj h) nofun
  · exact absurd h nofun

/-! ## A thread that has all its clients -/

/-- The thread is not found to be stopped by the loop that allocates its clients. -/
def Allocates (nClient : ℕ) (th : LoadThread) : Prop :=
  ∀ n, th.pc = .alloc n → n < nClient → th.isRun = true

/-- What the thread has done to its clients. -/
def Sound (nClient : ℕ) (th : LoadThread) : Prop :=
  match th.pc with
  | .alloc n => n ≤ nClient ∧
      th.kinds = .replicate n .live ++ .replicate (nClient - n) .null ∧
      th.closed = [] ∧ th.deleted = []
  | .close n => n ≤ nClient ∧
      th.kinds = .replicate n .deleted ++ .replicate (nClient - n) .live ∧
      th.closed = .range n ∧ th.deleted = .range n
  | .delete n => n < nClient ∧
      th.kinds = .replicate n .deleted ++ .replicate (nClient - n) .live ∧
      th.closed = .range (n + 1) ∧ th.deleted = .range n
  | .exit | .done => th.kinds = .replicate nClient .deleted ∧
      th.closed = .range nClient ∧ th.deleted = .range nClient
  | _ => th.kinds = .replicate nClient .live ∧ th.closed = [] ∧ th.deleted = []

theorem Sound.new (cfg : LoadConfig) : (new cfg).Sound cfg.nClient := by
  refine ⟨Nat.zero_le _, ?_, rfl, rfl⟩
  simp [kinds, LoadThread.new, ClientSlot.kind]

theorem Sound.of_working {N : ℕ} (hpc : Working th.pc) : th.Sound N ↔
    th.kinds = .replicate N .live ∧ th.closed = [] ∧ th.deleted = [] := by
  unfold Sound
  split <;> simp_all [Working]

/-- Replacing the first of the cells behind `n` that hold `b`. -/
theorem set_replicate {α : Type} {a b : α} {n N : ℕ} (h : n < N) :
    (List.replicate n a ++ List.replicate (N - n) b).set n a =
      List.replicate (n + 1) a ++ List.replicate (N - (n + 1)) b := by
  obtain ⟨k, rfl⟩ := Nat.exists_eq_add_of_lt h
  have hk : n + k + 1 - n = k + 1 := by omega
  have hk' : n + k + 1 - (n + 1) = k := by omega
  rw [hk, hk', List.set_append_right n a (by simp), List.length_replicate, Nat.sub_self,
    List.replicate_succ, List.set_cons_zero, List.replicate_succ', List.append_assoc,
    List.singleton_append]

theorem Sound.step {N : ℕ} (hs : th.Sound N) (halloc : th.Allocates N) (h : th.Moved N th') :
    th'.Sound N := by
  cases h with
  | @alloc n e hpc hn hrun =>
    unfold Sound at hs
    rw [hpc] at hs
    obtain ⟨-, hkinds, hclosed, hdeleted⟩ := hs
    refine ⟨hn, ?_, hclosed, hdeleted⟩
    rw [kinds_goto, kinds_setClient, hkinds, set_replicate hn]
  | @skip n hpc hstop =>
    unfold Sound at hs
    rw [hpc] at hs
    obtain ⟨hle, hkinds, hclosed, hdeleted⟩ := hs
    have hn : n = N := by
      by_contra hne
      have hlt : n < N := lt_of_le_of_ne hle hne
      exact hstop ⟨hlt, halloc n hpc hlt⟩
    refine ⟨?_, hclosed, hdeleted⟩
    rw [kinds_goto, hkinds, hn, Nat.sub_self, List.replicate_zero, List.append_nil]
  | work hpc hw =>
    obtain ⟨hkinds, hclosed, hdeleted⟩ := (Sound.of_working hpc).mp hs
    rcases hw.pc with hpc' | hpc'
    · refine (Sound.of_working hpc').mpr ⟨hw.kinds.trans hkinds, hw.closed.trans hclosed,
        hw.deleted.trans hdeleted⟩
    · unfold Sound
      rw [hpc']
      refine ⟨Nat.zero_le _, ?_, hw.closed.trans hclosed, hw.deleted.trans hdeleted⟩
      rw [hw.kinds, hkinds]
      rfl
  | @close n e e' hpc hn he =>
    unfold Sound at hs
    rw [hpc] at hs
    obtain ⟨-, hkinds, hclosed, hdeleted⟩ := hs
    refine ⟨hn, (kinds_setClient_of_ok he e').trans hkinds, ?_, hdeleted⟩
    rw [List.range_succ, ← hclosed]
  | @leave n hpc hn =>
    unfold Sound at hs
    rw [hpc] at hs
    obtain ⟨hle, hkinds, hclosed, hdeleted⟩ := hs
    obtain rfl : n = N := le_antisymm hle (not_lt.mp hn)
    refine ⟨?_, hclosed, hdeleted⟩
    rw [kinds_goto, hkinds, Nat.sub_self, List.replicate_zero, List.append_nil]
  | @delete n e hpc he =>
    unfold Sound at hs
    rw [hpc] at hs
    obtain ⟨hn, hkinds, hclosed, hdeleted⟩ := hs
    refine ⟨hn, ?_, hclosed, ?_⟩
    · rw [← set_replicate hn, ← hkinds]
      exact List.map_set
    · rw [List.range_succ, ← hdeleted]
  | @deleteNull n hpc he =>
    unfold Sound at hs
    rw [hpc] at hs
    obtain ⟨hn, hkinds, -, -⟩ := hs
    refine absurd ?_ (kinds_of_client he)
    rw [hkinds, List.getElem?_append_right (by simp), List.length_replicate, Nat.sub_self,
      List.getElem?_replicate, if_pos (by omega)]
  | exit hpc =>
    unfold Sound at hs ⊢
    rw [hpc] at hs
    exact hs

/-- Every client that is used is there. -/
theorem Sound.live {N : ℕ} (hs : th.Sound N) (h : th.Uses N n) :
    th.kinds[n]? = some .live := by
  rcases h with ⟨hn, hpc | hpc⟩ | hpc
  · rw [((Sound.of_working hpc).mp hs).1, List.getElem?_replicate, if_pos hn]
  · unfold Sound at hs
    rw [hpc] at hs
    rw [hs.2.1, List.getElem?_append_right (by simp), List.length_replicate, Nat.sub_self,
      List.getElem?_replicate, if_pos (by omega)]
  · unfold Sound at hs
    rw [hpc] at hs
    rw [hs.2.1, List.getElem?_append_right (by simp), List.length_replicate, Nat.sub_self,
      List.getElem?_replicate, if_pos (by omega)]

/-- Each client that was allocated is closed and deleted once. -/
structure ClosedOnce (th : LoadThread) : Prop where
  le : ∀ n, th.closed.count n ≤ 1 ∧ th.deleted.count n ≤ 1
  done : th.pc = .done → ∀ n slot, th.clients[n]? = some slot → slot ≠ .null →
    th.closed.count n = 1 ∧ th.deleted.count n = 1

theorem Sound.closedOnce {N : ℕ} (hs : th.Sound N) : th.ClosedOnce := by
  have hrange : ∀ k n, (List.range k).count n ≤ 1 := fun k n =>
    List.nodup_iff_count_le_one.mp List.nodup_range n
  constructor
  · intro n
    unfold Sound at hs
    split at hs
    · rw [hs.2.2.1, hs.2.2.2]
      simp
    · rw [hs.2.2.1, hs.2.2.2]
      exact ⟨hrange _ n, hrange _ n⟩
    · rw [hs.2.2.1, hs.2.2.2]
      exact ⟨hrange _ n, hrange _ n⟩
    · rw [hs.2.1, hs.2.2]
      exact ⟨hrange _ n, hrange _ n⟩
    · rw [hs.2.1, hs.2.2]
      exact ⟨hrange _ n, hrange _ n⟩
    · rw [hs.2.1, hs.2.2]
      simp
  · intro hpc n slot hslot _
    unfold Sound at hs
    rw [hpc] at hs
    obtain ⟨hkinds, hclosed, hdeleted⟩ := hs
    have hlen : n < th.kinds.length := by
      rw [kinds, List.length_map]
      exact (List.getElem?_eq_some_iff.mp hslot).1
    rw [hkinds, List.length_replicate] at hlen
    rw [hclosed, hdeleted]
    exact ⟨List.count_eq_one_of_mem List.nodup_range (List.mem_range.mpr hlen),
      List.count_eq_one_of_mem List.nodup_range (List.mem_range.mpr hlen)⟩

/-! ## A thread that lacks a client -/

/-- The thread was stopped while it allocated its clients : it has the first `k` of them,
and has yet to close the client `k`. -/
structure Short (nClient k : ℕ) (th : LoadThread) : Prop where
  isRun : th.isRun = false
  lt : k < nClient
  null : th.kinds[k]? = some .null
  pc : match th.pc with
    | .connect _ | .ready | .wait | .work => ∀ m < k, th.kinds[m]? = some .live
    | .close n => n ≤ k ∧ ∀ m < k, n ≤ m → th.kinds[m]? = some .live
    | .delete n => n < k ∧ ∀ m < k, n ≤ m → th.kinds[m]? = some .live
    | _ => False

theorem Short.of_idle {N k : ℕ} (hpc : Idle th.pc) : th.Short N k ↔
    th.isRun = false ∧ k < N ∧ th.kinds[k]? = some .null ∧ ∀ m < k, th.kinds[m]? = some .live := by
  constructor
  · rintro ⟨hrun, hlt, hnull, hlive⟩
    refine ⟨hrun, hlt, hnull, ?_⟩
    unfold Idle at hpc
    split at hlive <;> simp_all
  · rintro ⟨hrun, hlt, hnull, hlive⟩
    refine ⟨hrun, hlt, hnull, ?_⟩
    unfold Idle at hpc
    split <;> simp_all

theorem Sound.short {N : ℕ} (hs : th.Sound N) (hshort : ¬th.Allocates N) (h : th.Moved N th') :
    ∃ k, th'.Short N k := by
  unfold Allocates at hshort
  push Not at hshort
  obtain ⟨k, hpc, hk, hrun⟩ := hshort
  have hstop : th.isRun = false := Bool.not_eq_true _ ▸ hrun
  unfold Sound at hs
  rw [hpc] at hs
  obtain ⟨-, hkinds, -, -⟩ := hs
  cases h with
  | skip _ _ =>
    refine ⟨k, (Short.of_idle (by exact trivial)).mpr ⟨hstop, hk, ?_, fun m hm => ?_⟩⟩
    · rw [kinds_goto, hkinds, List.getElem?_append_right (by simp), List.length_replicate,
        Nat.sub_self, List.getElem?_replicate, if_pos (by omega)]
    · rw [kinds_goto, hkinds, List.getElem?_append_left (by simpa using hm),
        List.getElem?_replicate, if_pos hm]
  | alloc _ _ hrun' => exact absurd hrun' hrun
  | work hpc' _ => rw [hpc] at hpc'; exact hpc'.elim
  | close hpc' _ _ | leave hpc' _ | delete hpc' _ | deleteNull hpc' _ | exit hpc' =>
    rw [hpc] at hpc'
    exact absurd hpc' nofun

theorem Short.step {N k : ℕ} (hs : th.Short N k) (h : th.Moved N th') : th'.Short N k := by
  obtain ⟨hrun, hlt, hnull, hlive⟩ := hs
  cases h with
  | alloc hpc _ _ | skip hpc _ | exit hpc =>
    rw [hpc] at hlive
    exact hlive.elim
  | work hpc hw =>
    have hidle : Idle th.pc := by
      unfold Working at hpc
      unfold Idle
      split at hlive <;> simp_all
    obtain ⟨-, -, -, hlive⟩ := (Short.of_idle hidle).mp ⟨hrun, hlt, hnull, hlive⟩
    rcases hw.idle hrun hidle with hpc' | hpc'
    · refine (Short.of_idle hpc').mpr ⟨hw.isRun.trans hrun, hlt, ?_, ?_⟩ <;> rwa [hw.kinds]
    · refine ⟨hw.isRun.trans hrun, hlt, by rwa [hw.kinds], ?_⟩
      rw [hpc', hw.kinds]
      exact ⟨Nat.zero_le _, fun m hm _ => hlive m hm⟩
  | @close n e e' hpc hn he =>
    rw [hpc] at hlive
    obtain ⟨hle, hlive⟩ := hlive
    have hkinds := kinds_setClient_of_ok he e'
    have hne : n ≠ k := by
      rintro rfl
      rw [kinds, List.getElem?_map, client_eq_ok.mp he] at hnull
      exact absurd hnull nofun
    exact ⟨hrun, hlt, hkinds ▸ hnull, lt_of_le_of_ne hle hne, hkinds ▸ hlive⟩
  | leave hpc hn =>
    rw [hpc] at hlive
    exact absurd (lt_of_le_of_lt hlive.1 hlt) hn
  | @delete n e hpc he =>
    rw [hpc] at hlive
    obtain ⟨hn, hlive⟩ := hlive
    have hset : ∀ m, n < m → (List.map ClientSlot.kind (th.clients.set n .deleted))[m]? =
        th.kinds[m]? := fun m hm => by
      rw [List.map_set, List.getElem?_set_ne (by omega)]
      rfl
    refine ⟨hrun, hlt, (hset k hn).trans hnull, hn, fun m hm hnm => ?_⟩
    exact (hset m hnm).trans (hlive m hm (by omega))
  | @deleteNull n hpc he =>
    rw [hpc] at hlive
    exact absurd (hlive.2 n hlive.1 (le_refl n)) (kinds_of_client he)

/-- The steps to the missing client. -/
def remaining (k : ℕ) : LoadPC → ℕ
  | .connect _ => 2 * k + 4
  | .ready => 2 * k + 3
  | .wait => 2 * k + 2
  | .work => 2 * k + 1
  | .close n => 2 * (k - n)
  | .delete n => 2 * (k - n) - 1
  | _ => 0

/-- The thread goes on to the missing client. -/
theorem Short.progress {k : ℕ} (hs : th.Short cfg.nClient k) (fuel : ℕ) (c : LoadCounts)
    (sys : LoadSys) :
    th.next cfg fuel c sys = some (.error .notAllocated) ∨
      ∃ c' th', th.next cfg fuel c sys = some (.ok (c', th')) ∧
        remaining k th'.pc < remaining k th.pc := by
  obtain ⟨hrun, hlt, hnull, hlive⟩ := hs
  unfold next
  split at hlive
  · rename_i n hpc
    refine .inr ⟨c, th.goto .ready, ?_, ?_⟩
    · simp [hpc, connect, hrun]
    · rw [hpc]
      exact Nat.lt_succ_self _
  · rename_i hpc
    rw [hpc]
    exact .inr ⟨_, _, rfl, Nat.lt_succ_self _⟩
  · rename_i hpc
    refine .inr ⟨c, th.goto .work, ?_, ?_⟩
    · simp [hpc, hrun]
    · rw [hpc]
      exact Nat.lt_succ_self _
  · rename_i hpc
    refine .inr ⟨c, th.goto (.close 0), ?_, ?_⟩
    · simp [hpc, hrun]
    · rw [hpc]
      exact Nat.lt_succ_self _
  · rename_i n hpc
    obtain ⟨hle, hlive⟩ := hlive
    have hn : n < cfg.nClient := lt_of_le_of_lt hle hlt
    rcases eq_or_lt_of_le hle with rfl | hnk
    · left
      have hclient : th.client n = .error .notAllocated := by
        rw [kinds, List.getElem?_map] at hnull
        obtain ⟨slot, hslot, hkind⟩ := Option.map_eq_some_iff.mp hnull
        cases slot with
        | null => rw [client, hslot]
        | live | deleted => exact absurd hkind nofun
      simp only [hpc, if_pos hn, hclient]
      rfl
    · obtain ⟨e, he⟩ := client_of_kind (hlive n hnk (le_refl n))
      refine .inr ⟨c, { (th.setClient n e.close).goto (.delete n) with
        closed := th.closed ++ [n] }, ?_, ?_⟩
      · simp only [hpc, if_pos hn, he]
        rfl
      · rw [hpc]
        change 2 * (k - n) - 1 < 2 * (k - n)
        omega
  · rename_i n hpc
    obtain ⟨hn, hlive⟩ := hlive
    obtain ⟨e, he⟩ := client_of_kind (hlive n hn (le_refl n))
    refine .inr ⟨c, { th with
      pc := .close (n + 1)
      clients := th.clients.set n .deleted
      deleted := th.deleted ++ [n] }, ?_, ?_⟩
    · simp only [hpc, client_eq_ok.mp he]
    · rw [hpc]
      change 2 * (k - (n + 1)) < 2 * (k - n) - 1
      omega
  · exact hlive.elim

end LoadThread

namespace LoadClient

variable {cfg : LoadConfig} {s t : LoadClient} {a : LoadAct} {tr : List (LoadClient × LoadAct)}
  {th : LoadThread} {i k : ℕ}

/-! ## The program -/

/-- A step does not find its thread stopped while it allocates its clients. -/
def Allocating (cfg : LoadConfig) (s : LoadClient) : LoadAct → Prop
  | .step i _ => ∀ th ∈ s.threads[i]?, th.Allocates cfg.nClient
  | .stop _ => True

/-- The threads have all their clients. -/
def Sound (cfg : LoadConfig) (s : LoadClient) : Prop :=
  ∀ th ∈ s.threads, th.Sound cfg.nClient

theorem Sound.init (h : (loadClient cfg).init s) : s.Sound cfg := by
  obtain rfl : s = .new cfg := h
  intro th hth
  obtain rfl := List.eq_of_mem_replicate hth
  exact .new cfg

theorem step_cases (h : (loadClient cfg).step s a (.ok t)) :
    (∃ i sys th th', a = .step i sys ∧ s.threads[i]? = some th ∧ th.Moved cfg.nClient th' ∧
      t.threads = s.threads.set i th') ∨
    ∃ i th, a = .stop i ∧ s.threads[i]? = some th ∧
      t.threads = s.threads.set i { th with isRun := false } := by
  obtain ⟨-, fuel, hact⟩ := h
  cases a with
  | step i sys =>
    obtain ⟨th, hth, hact⟩ := Option.bind_eq_some_iff.mp hact
    obtain ⟨x, hx, hact⟩ := Option.map_eq_some_iff.mp hact
    obtain ⟨⟨c, th'⟩, rfl, hact⟩ := Fallible.bind_eq_ok.mp hact
    obtain rfl := Except.ok.inj hact
    exact .inl ⟨i, sys, th, th', rfl, hth, LoadThread.moved hx, rfl⟩
  | stop i =>
    obtain ⟨th, hth, hact⟩ := Option.map_eq_some_iff.mp hact
    obtain rfl := Except.ok.inj hact
    exact .inr ⟨i, th, rfl, hth, rfl⟩

theorem Sound.step (hs : s.Sound cfg) (ha : s.Allocating cfg a)
    (h : (loadClient cfg).step s a (.ok t)) : t.Sound cfg := by
  intro th hth
  rcases step_cases h with ⟨i, sys, th₀, th', rfl, hi, hmoved, hthreads⟩ | ⟨i, th₀, -, hi, hthreads⟩
  · rw [hthreads] at hth
    rcases List.mem_or_eq_of_mem_set hth with hth | rfl
    · exact hs th hth
    · exact (hs th₀ (List.mem_of_getElem? hi)).step (ha th₀ hi) hmoved
  · rw [hthreads] at hth
    rcases List.mem_or_eq_of_mem_set hth with hth | rfl
    · exact hs th hth
    · exact hs th₀ (List.mem_of_getElem? hi)

/-- Nothing uses a client that is not there. -/
theorem Sound.not_fault (hs : s.Sound cfg) {u : LoadFault} (hu : u = .notAllocated ∨ u = .deleted) :
    ¬(loadClient cfg).step s a (.error u) := by
  rintro ⟨-, fuel, hact⟩
  cases a with
  | step i sys =>
    obtain ⟨th, hth, hact⟩ := Option.bind_eq_some_iff.mp hact
    obtain ⟨x, hx, hact⟩ := Option.map_eq_some_iff.mp hact
    rcases Fallible.bind_eq_error.mp hact with rfl | ⟨y, -, hact⟩
    · obtain ⟨n, huses, hkind⟩ := LoadThread.faulted hu hx
      exact hkind ((hs th (List.mem_of_getElem? hth)).live huses)
    · exact absurd hact nofun
  | stop i =>
    obtain ⟨th, -, hact⟩ := Option.map_eq_some_iff.mp hact
    exact absurd hact nofun

/-- From here on no client is used that is not there, and each is closed and deleted once,
unless another thread is found to be stopped while it allocates its clients. -/
def KeepsClients (cfg : LoadConfig) (s : LoadClient) : Prop :=
  ∀ tr t, (loadClient cfg).Run s tr t → (∀ x ∈ tr, x.1.Allocating cfg x.2) →
    (∀ a, ¬(loadClient cfg).step t a (.error .notAllocated) ∧
      ¬(loadClient cfg).step t a (.error .deleted)) ∧
    ∀ th ∈ t.threads, th.ClosedOnce

theorem Sound.keepsClients (hs : s.Sound cfg) : s.KeepsClients cfg := by
  intro tr t hrun htr
  have ht : t.Sound cfg :=
    hrun.invariant_of_steps (fun _ _ _ hs ha hstep => hs.step ha hstep) htr hs
  exact ⟨fun a => ⟨ht.not_fault (.inl rfl), ht.not_fault (.inr rfl)⟩,
    fun th hth => (ht th hth).closedOnce⟩

/-- A thread that lacks a client comes to close it. -/
theorem doomed (hi : s.threads[i]? = some th) (hshort : th.Short cfg.nClient k) :
    ∃ tr t, (loadClient cfg).Run s tr t ∧ (∀ x ∈ tr, x.1.Allocating cfg x.2) ∧
      ∃ a, (loadClient cfg).step t a (.error .notAllocated) := by
  let sys : LoadSys := ⟨.noSocket, .fail true, .fail, .fail, 0⟩
  induction hn : LoadThread.remaining k th.pc using Nat.strong_induction_on generalizing s th with
  | _ n ih =>
    subst hn
    rcases hshort.progress 0 s.counts sys with hnext | ⟨c, th', hnext, hlt⟩
    · refine ⟨[], s, .nil s, by simp, .step i sys, trivial, 0, ?_⟩
      simp only [act, hi, Option.bind_some, hnext]
      rfl
    · have hstep : (loadClient cfg).step s (.step i sys) (.ok ⟨c, s.threads.set i th'⟩) := by
        refine ⟨trivial, 0, ?_⟩
        simp only [act, hi, Option.bind_some, hnext]
        rfl
      have hi' : (LoadClient.mk c (s.threads.set i th')).threads[i]? = some th' :=
        List.getElem?_set_self (List.getElem?_eq_some_iff.mp hi).1
      have hshort' := hshort.step (LoadThread.moved hnext)
      obtain ⟨tr, t, hrun, htr, hfault⟩ := ih _ hlt hi' hshort' rfl
      refine ⟨_, t, .cons hstep hrun, ?_, hfault⟩
      rw [List.forall_mem_cons]
      refine ⟨fun th₀ hth₀ n hpc _ => ?_, htr⟩
      obtain rfl := Option.some.inj (hi.symm.trans hth₀)
      have hlive := hshort.pc
      rw [hpc] at hlive
      exact hlive.elim

theorem allocating_of_keepsClients (hs : s.Sound cfg) (h : (loadClient cfg).step s a (.ok t))
    (ht : t.KeepsClients cfg) : s.Allocating cfg a := by
  cases a with
  | stop i => trivial
  | step i sys =>
    intro th hth
    by_contra halloc
    rcases step_cases h with ⟨j, sys', th₀, th', heq, hj, hmoved, hthreads⟩ | ⟨j, th₀, heq, -, -⟩
    · obtain ⟨rfl, -⟩ := LoadAct.step.inj heq
      obtain rfl := Option.some.inj (hj.symm.trans hth)
      obtain ⟨k, hshort⟩ := (hs th₀ (List.mem_of_getElem? hj)).short halloc hmoved
      have hi : t.threads[i]? = some th' := by
        rw [hthreads]
        exact List.getElem?_set_self (List.getElem?_eq_some_iff.mp hj).1
      obtain ⟨tr, u, hrun, htr, a, hfault⟩ := doomed hi hshort
      exact ((ht tr u hrun htr).1 a).1 hfault
    · exact absurd heq nofun

end LoadClient

open LoadClient in
/-- Stopping the client program. For every number of clients and of threads, every outcome of
the calls and all moments at which the threads are stopped : nothing uses a client that is not
there, and each allocated client is closed and deleted once, exactly when no thread is
found to be stopped by the loop that allocates its clients. -/
theorem stop_in_start_up_iff (cfg : LoadConfig) {s₀ s : LoadClient}
    {tr : List (LoadClient × LoadAct)} (hinit : (loadClient cfg).init s₀)
    (hrun : (loadClient cfg).Run s₀ tr s) :
    ((∀ x ∈ tr, x.1.KeepsClients cfg) ∧ s.KeepsClients cfg) ↔
      ∀ x ∈ tr, x.1.Allocating cfg x.2 := by
  have hsound := Sound.init hinit
  constructor
  · rintro ⟨htr, hs⟩
    induction hrun with
    | nil => simp
    | @snoc t u tr a hrun hstep ih =>
      simp only [List.mem_append, List.mem_singleton, or_imp, forall_and, forall_eq] at htr ⊢
      have htr' := ih htr.1 htr.2
      have ht : t.Sound cfg :=
        hrun.invariant_of_steps (fun _ _ _ hs ha hstep => hs.step ha hstep) htr' hsound
      exact ⟨htr', allocating_of_keepsClients ht hstep hs⟩
  · intro htr
    refine ⟨fun x hx => ?_, ?_⟩
    · obtain ⟨pre, post, hpre, rfl⟩ := hrun.of_mem hx
      have hx' : x.1.Sound cfg :=
        hpre.invariant_of_steps (fun _ _ _ hs ha hstep => hs.step ha hstep)
          (fun y hy => htr y (by simp [hy])) hsound
      exact hx'.keepsClients
    · have hs : s.Sound cfg :=
        hrun.invariant_of_steps (fun _ _ _ hs ha hstep => hs.step ha hstep) htr hsound
      exact hs.keepsClients

/-- One thread with one client. -/
def loadOne : LoadConfig :=
  ⟨1, 1, 10, 100, false, ⟨.replicate 32 0, .replicate 32 0, .replicate 28 0, 0⟩⟩

/-- A thread that is stopped once it has its client closes and deletes it. -/
theorem stop_in_start_up_allocated : ∃ tr s, (loadClient loadOne).Run (.new loadOne) tr s ∧
    (∀ th ∈ s.threads, th.isRun = false) ∧ s.KeepsClients loadOne := by
  let sys : LoadSys := ⟨.noSocket, .fail true, .fail, .fail, 0⟩
  let slot : ClientSlot := .live ⟨none, false, .new false⟩
  let s₁ : LoadClient := ⟨⟨0, 0, 0⟩, [⟨true, .alloc 1, [slot], [], []⟩]⟩
  let s₂ : LoadClient := ⟨⟨0, 0, 0⟩, [⟨false, .alloc 1, [slot], [], []⟩]⟩
  have hrun : (loadClient loadOne).Run (.new loadOne)
      [(.new loadOne, .step 0 sys), (s₁, .stop 0)] s₂ :=
    .cons ⟨trivial, 0, rfl⟩ (.single ⟨trivial, 0, rfl⟩)
  have hall : ∀ x ∈ [(LoadClient.new loadOne, LoadAct.step 0 sys), (s₁, .stop 0)],
      x.1.Allocating loadOne x.2 := by
    rw [List.forall_mem_cons, List.forall_mem_singleton]
    refine ⟨fun th hth n _ _ => ?_, trivial⟩
    obtain rfl := Option.some.inj hth
    rfl
  exact ⟨_, s₂, hrun, by simp [s₂], ((stop_in_start_up_iff loadOne rfl hrun).mpr hall).2⟩

/-- A thread that is stopped before it has its client closes a null pointer. -/
theorem not_stop_in_start_up : ¬∀ (cfg : LoadConfig) (s : LoadClient),
    (loadClient cfg).Reachable s →
      (∀ a, ¬(loadClient cfg).step s a (.error .notAllocated) ∧
        ¬(loadClient cfg).step s a (.error .deleted)) ∧ ∀ th ∈ s.threads, th.ClosedOnce := by
  intro hall
  let sys : LoadSys := ⟨.noSocket, .fail true, .fail, .fail, 0⟩
  let acts : List LoadAct := .stop 0 :: .replicate 5 (.step 0 sys)
  let next? := Machine.next? (fun _ _ => True) (LoadClient.act loadOne) 0
  have heval : (acts.foldlM next? (.new loadOne)).map (fun s =>
      (s.act loadOne 0 (.step 0 sys)).map fun x =>
        match x with
        | .error u => some u
        | .ok _ => none) = some (some (some .notAllocated)) := by
    decide +kernel
  obtain ⟨tr, s, hrun, -, hstate⟩ := Machine.Run.of_next?_map (loadClient loadOne).init heval
  obtain ⟨x, hx, hfault⟩ := Option.map_eq_some_iff.mp hstate
  cases x with
  | ok _ => exact absurd hfault nofun
  | error u =>
    obtain rfl := Option.some.inj hfault
    exact ((hall loadOne s ⟨_, tr, rfl, hrun⟩).1 (.step 0 sys)).1 ⟨trivial, 0, hx⟩

end CellNet
