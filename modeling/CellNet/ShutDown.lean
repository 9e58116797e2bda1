import CellNet.Waiting

/-!
# Shutting the server down

`EasyTcpServer::Close` stops the thread that accepts, and then closes the workers one after
the other. `Close` of a worker clears `_isRun` and waits for the end of its thread. The
thread tests `_isRun` once in each turn of its loop, nothing sets it again, and
`ClearClients` comes behind the loop, so the thread is over after seven sections, all of
which end but a `DoMsg` over a header that announces `0` (`closed_worker_ends`).

`ClearClients` runs once. It takes no lock, but is one step here like the other sections, so
no client is added while it runs. A client that `Accept` gives to a worker whose thread is
over is never deleted, and its descriptor stays open. `shut_down_clean_iff` : when all threads
are over, no client is left exactly when no `Accept` of the run did that.
-/

namespace CellNet

/-- The sections left to a thread at `pc` that is told to stop. -/
def PC.untilEnd : PC → ℕ
  | .ended => 0
  | .clearClients => 1
  | .loop => 2
  | .doMsg => 3
  | .doNetEvents => 4
  | .checkTime => 5
  | .testEmpty => 6
  | .handOver => 7

theorem PC.untilEnd_le (pc : PC) : pc.untilEnd ≤ 7 := by
  cases pc <;> decide

theorem PC.untilEnd_next {pc pc' : PC} (h : pc' ∈ pc.next) (hstop : pc' ≠ .handOver) :
    pc'.untilEnd + 1 ≤ pc.untilEnd := by
  cases pc <;> simp [PC.next] at h hstop <;> rcases h with rfl | rfl <;> simp_all [PC.untilEnd]

namespace ServerState

variable {s t : ServerState} {p : Ptr} {sys : SysCalls} {h : Handler} {n : ℕ}

/-! ## The stop flag

What the sections do with a client does not touch `_isRun`. -/

theorem foldlM_isRun {α : Type} {f : ServerState → α → Exec ServerState}
    (hf : ∀ s x t, f s x = .ok t → t.srv.isRun = s.srv.isRun) (xs : List α) {s t : ServerState}
    (h : xs.foldlM f s = .ok t) : t.srv.isRun = s.srv.isRun := by
  induction xs generalizing s with
  | nil =>
    obtain rfl := Except.ok.inj h
    rfl
  | cons x xs ih =>
    rw [List.foldlM_cons] at h
    obtain ⟨u, hu, h⟩ := Fallible.bind_eq_ok.mp h
    rw [ih h, hf _ _ _ hu]

theorem call_srv {β : Type} {f : CELLClient → Exec (β × CELLClient)} {b : β}
    (h : s.call p f = .ok (b, t)) : t.srv = s.srv := by
  obtain ⟨x, -, h⟩ := Fallible.bind_eq_ok.mp h
  obtain ⟨-, rfl⟩ := Prod.mk.inj (Except.ok.inj h)
  rfl

theorem event_srv {e : NetEvent} (h : s.event e = .ok t) : t.srv = s.srv := by
  obtain ⟨c, -, h⟩ := Fallible.bind_eq_ok.mp h
  obtain rfl := Except.ok.inj h
  rfl

theorem recvData_srv {r : RecvResult} {b : ℤ} (h : s.recvData p r = .ok (b, t)) :
    t.srv = s.srv := by
  obtain ⟨c, -, h⟩ := Fallible.bind_eq_ok.mp h
  obtain ⟨⟨_, u⟩, hu, h⟩ := Fallible.bind_eq_ok.mp h
  obtain ⟨v, hv, h⟩ := Fallible.bind_eq_ok.mp h
  obtain ⟨-, rfl⟩ := Prod.mk.inj (Except.ok.inj h)
  rw [event_srv hv, call_srv hu]

theorem onClientLeave_isRun (h : s.onClientLeave p = .ok t) : t.srv.isRun = s.srv.isRun := by
  obtain ⟨u, hu, h⟩ := Fallible.bind_eq_ok.mp h
  obtain ⟨heap, -, h⟩ := Fallible.bind_eq_ok.mp h
  obtain rfl := Except.ok.inj h
  have hclosed : ∀ (srv : CELLServer) fd, (srv.closed fd).isRun = srv.isRun := by
    intro srv fd
    unfold CELLServer.closed
    split <;> rfl
  rw [← event_srv hu]
  dsimp only
  split
  · rw [hclosed]
    rfl
  · rfl

/-- A call that may fail, and the removal of the client. -/
theorem leave_isRun {k : SOCKET} {n : ℤ} (h : (if SOCKET_ERROR = n then do
    let s ← s.onClientLeave p
    return s.erase k else return s) = Except.ok t) : t.srv.isRun = s.srv.isRun := by
  split at h
  · obtain ⟨u, hu, h⟩ := Fallible.bind_eq_ok.mp h
    obtain rfl := Except.ok.inj h
    have hleave := onClientLeave_isRun hu
    exact hleave
  · obtain rfl := Except.ok.inj h
    rfl

theorem joinClient_isRun (h : joinClient sys s p = .ok t) : t.srv.isRun = s.srv.isRun := by
  obtain ⟨fd, -, h⟩ := Fallible.bind_eq_ok.mp h
  obtain ⟨⟨_, u⟩, hu, h⟩ := Fallible.bind_eq_ok.mp h
  obtain ⟨v, hv, h⟩ := Fallible.bind_eq_ok.mp h
  have hjoin := congrArg CELLServer.isRun ((event_srv hv).trans (call_srv hu))
  rw [onClientJoin] at h
  split at h
  · obtain rfl := Except.ok.inj h
    exact hjoin
  · obtain ⟨fd', -, h⟩ := Fallible.bind_eq_ok.mp h
    obtain rfl := Except.ok.inj h
    exact hjoin

theorem checkClient_isRun {dt : ℤ} {e : SOCKET × Ptr} (h : checkClient dt s e = .ok t) :
    t.srv.isRun = s.srv.isRun := by
  obtain ⟨⟨dead, u⟩, hu, h⟩ := Fallible.bind_eq_ok.mp h
  rw [← call_srv hu]
  dsimp only at h
  split at h
  · obtain ⟨v, hv, h⟩ := Fallible.bind_eq_ok.mp h
    obtain rfl := Except.ok.inj h
    have hleave := onClientLeave_isRun hv
    exact hleave
  · obtain rfl := Except.ok.inj h
    rfl

theorem readClient_isRun {set : CELLFDSet} {e : SOCKET × Ptr}
    (h : readClient sys set s e = .ok t) : t.srv.isRun = s.srv.isRun := by
  obtain ⟨fd, -, h⟩ := Fallible.bind_eq_ok.mp h
  obtain ⟨b, -, h⟩ := Fallible.bind_eq_ok.mp h
  split at h
  · obtain ⟨⟨n, u⟩, hu, h⟩ := Fallible.bind_eq_ok.mp h
    rw [leave_isRun h, recvData_srv hu]
  · obtain rfl := Except.ok.inj h
    rfl

theorem writeClient_isRun {set : CELLFDSet} {e : SOCKET × Ptr}
    (h : writeClient sys set s e = .ok t) : t.srv.isRun = s.srv.isRun := by
  obtain ⟨c, -, h⟩ := Fallible.bind_eq_ok.mp h
  split at h
  · obtain ⟨b, -, h⟩ := Fallible.bind_eq_ok.mp h
    split at h
    · obtain ⟨⟨n, u⟩, hu, h⟩ := Fallible.bind_eq_ok.mp h
      rw [leave_isRun h, call_srv hu]
    · obtain rfl := Except.ok.inj h
      rfl
  · obtain rfl := Except.ok.inj h
    rfl

theorem rmClient_isRun (h : s.rmClient p = .ok t) : t.srv.isRun = s.srv.isRun := by
  obtain ⟨fd, -, h⟩ := Fallible.bind_eq_ok.mp h
  rw [onClientLeave_isRun h]
  split <;> rfl

theorem onWritable_isRun {ev : EpollEvent} (h : onWritable sys s ev p = .ok t) :
    t.srv.isRun = s.srv.isRun := by
  unfold onWritable at h
  split at h
  · obtain ⟨⟨n, u⟩, hu, h⟩ := Fallible.bind_eq_ok.mp h
    rw [← call_srv hu]
    dsimp only at h
    split at h
    · exact rmClient_isRun h
    · obtain rfl := Except.ok.inj h
      rfl
  · obtain rfl := Except.ok.inj h
    rfl

theorem onEvent_isRun {ev : EpollEvent} (h : onEvent sys s ev = .ok t) :
    t.srv.isRun = s.srv.isRun := by
  unfold onEvent at h
  split at h
  · obtain rfl := Except.ok.inj h
    rfl
  · split at h
    · obtain ⟨⟨n, u⟩, hu, h⟩ := Fallible.bind_eq_ok.mp h
      rw [← recvData_srv hu]
      dsimp only at h
      split at h
      · exact rmClient_isRun h
      · exact onWritable_isRun h
    · exact onWritable_isRun h

theorem selectNetEvents_isRun {d : CELLSelectServer} {b : Bool}
    (h : s.selectNetEvents sys d = .ok (b, t)) : t.srv.isRun = s.srv.isRun := by
  obtain ⟨⟨u, d'⟩, hu, h⟩ := Fallible.bind_eq_ok.mp h
  have hread : u.srv.isRun = s.srv.isRun := by
    rw [readSet] at hu
    split at hu
    · dsimp only at hu
      split at hu
      · cases hu
      · obtain ⟨_, -, hu⟩ := Fallible.bind_eq_ok.mp hu
        obtain ⟨_, -, hu⟩ := Fallible.bind_eq_ok.mp hu
        obtain ⟨rfl, -⟩ := Prod.mk.inj (Except.ok.inj hu)
        rfl
    · obtain ⟨rfl, -⟩ := Prod.mk.inj (Except.ok.inj hu)
      rfl
  obtain ⟨⟨need, w⟩, -, h⟩ := Fallible.bind_eq_ok.mp h
  obtain ⟨⟨ret, r, w'⟩, -, h⟩ := Fallible.bind_eq_ok.mp h
  rw [← hread]
  dsimp only at h
  split at h
  · obtain ⟨-, rfl⟩ := Prod.mk.inj (Except.ok.inj h)
    rfl
  split at h
  · obtain ⟨-, rfl⟩ := Prod.mk.inj (Except.ok.inj h)
    rfl
  · obtain ⟨v, hv, h⟩ := Fallible.bind_eq_ok.mp h
    obtain ⟨x, hx, h⟩ := Fallible.bind_eq_ok.mp h
    obtain ⟨-, rfl⟩ := Prod.mk.inj (Except.ok.inj h)
    rw [foldlM_isRun (fun _ _ _ => writeClient_isRun) _ hx,
      foldlM_isRun (fun _ _ _ => readClient_isRun) _ hv]
    rfl

theorem doNetEvents_isRun {b : Bool} (h : s.doNetEvents sys = .ok (b, t)) :
    t.srv.isRun = s.srv.isRun := by
  unfold doNetEvents at h
  split at h
  · exact selectNetEvents_isRun h
  · obtain ⟨ep, -, h⟩ := Fallible.bind_eq_ok.mp h
    dsimp only at h
    split at h
    · obtain ⟨-, rfl⟩ := Prod.mk.inj (Except.ok.inj h)
      rfl
    · obtain ⟨u, hu, h⟩ := Fallible.bind_eq_ok.mp h
      obtain ⟨-, rfl⟩ := Prod.mk.inj (Except.ok.inj h)
      rw [foldlM_isRun (fun _ _ _ => onEvent_isRun) _ hu]
      rfl

theorem handOver_isRun (h : s.handOver sys = .ok t) : t.srv.isRun = s.srv.isRun := by
  unfold handOver at h
  split at h
  · obtain rfl := Except.ok.inj h
    rfl
  · obtain ⟨u, hu, h⟩ := Fallible.bind_eq_ok.mp h
    obtain rfl := Except.ok.inj h
    have hfold := foldlM_isRun (fun _ _ _ => joinClient_isRun) _ hu
    exact hfold

/-- A thread that is told to stop stays so. -/
theorem work_isRun {others : List Ptr} (hran : s.Ran sys others t)
    (hwork : s.work h n sys = some (.ok t)) (hrun : s.srv.isRun = false) :
    t.srv.isRun = false := by
  cases hran with
  | loop => exact hrun
  | handOver hpc =>
    simp only [work, hpc, Option.some.injEq] at hwork
    obtain ⟨v, hv, heq⟩ := Exec.map_eq_ok.mp hwork
    rw [← heq]
    exact (handOver_isRun hv).trans hrun
  | skip => exact hrun
  | busy => exact hrun
  | checkTime hpc =>
    simp only [work, hpc, Option.some.injEq] at hwork
    obtain ⟨v, hv, heq⟩ := Exec.map_eq_ok.mp hwork
    rw [← heq]
    exact (foldlM_isRun (fun _ _ _ => checkClient_isRun) _ hv).trans hrun
  | round hpc =>
    simp only [work, hpc, Option.some.injEq] at hwork
    obtain ⟨⟨ok, v⟩, hv, heq⟩ := Fallible.bind_eq_ok.mp hwork
    have hsame := (doNetEvents_isRun hv).trans hrun
    dsimp only at heq
    split at heq
    · rw [← Except.ok.inj heq]
      exact hsame
    · rw [← Except.ok.inj heq]
  | stop => rfl
  | doMsg _ _ hsrv =>
    rw [← hsrv] at hrun
    exact hrun
  | clearClients => rfl

end ServerState

namespace EasyTcpServer

variable {s t : EasyTcpServer} {a : TcpAct} {i : ℕ} {srv : CELLServer} {u : ServerState}
  {h : Handler} {kind : ServerKind} {p : Ptr}

/-! ## The end of a thread -/

/-- The worker `i` is told to stop. -/
def Stopped (s : EasyTcpServer) (i : ℕ) : Prop :=
  ∃ srv, s.cellServers[i]? = some srv ∧ srv.isRun = false

/-- The sections left to the worker `i`. -/
def untilEnd (s : EasyTcpServer) (i : ℕ) : ℕ :=
  (s.cellServers[i]?.map fun srv => srv.pc.untilEnd).getD 0

theorem untilEnd_eq (hi : s.cellServers[i]? = some srv) : s.untilEnd i = srv.pc.untilEnd := by
  rw [untilEnd, hi]
  rfl

/-- The other actions do not start the worker again. -/
theorem Owned.stopped_other (ho : s.Owned) (hstep : (tcpServer h kind).step s a (.ok t))
    (ha : a.isWork i = false) (hs : s.Stopped i) : t.Stopped i := by
  obtain ⟨srv, hi, hrun⟩ := hs
  have hput : ∀ {j srv₁ u}, s.cellServers[j]? = some srv₁ →
      (j = i → srv₁.isRun = false → u.srv.isRun = false) → (s.put j u).Stopped i := by
    intro j srv₁ u hj hu
    rw [Stopped, getElem?_put hj]
    split
    · rename_i heq
      subst heq
      obtain rfl : srv₁ = srv := Option.some.inj (hj.symm.trans hi)
      exact ⟨u.srv, rfl, hu rfl hrun⟩
    · exact ⟨srv, hi, hrun⟩
  cases ho.stepped hstep with
  | refused => exact ⟨srv, hi, hrun⟩
  | accepted _ _ hmin => exact hput hmin.1 fun _ hrun => hrun
  | logged => exact ⟨srv, hi, hrun⟩
  | closed hj => exact hput hj fun _ _ => rfl
  | worked hj =>
    refine hput hj fun heq => ?_
    rw [heq, TcpAct.isWork, decide_eq_false_iff_not] at ha
    exact absurd rfl ha

/-- A worker that is told to stop comes closer to its end with each section. -/
theorem Owned.stopped_step (ho : s.Owned) (hstep : (tcpServer h kind).step s a (.ok t))
    (hs : s.Stopped i) :
    t.Stopped i ∧ t.untilEnd i + (a.isWork i).toNat ≤ s.untilEnd i := by
  rcases ha : a.isWork i with _ | _
  · refine ⟨ho.stopped_other hstep ha hs, ?_⟩
    obtain ⟨srv, hi, -⟩ := hs
    obtain ⟨srv', hi', hpc, -⟩ := ho.other_step hstep ha hi
    rw [untilEnd_eq hi, untilEnd_eq hi', hpc]
    exact le_refl _
  · obtain ⟨srv, hi, hrun⟩ := hs
    cases a with
    | work j sys =>
      obtain rfl : j = i := of_decide_eq_true ha
      obtain ⟨srv', u, n, hj, hwork, hran, rfl⟩ := ho.work_step hstep
      obtain rfl : srv' = srv := Option.some.inj (hj.symm.trans hi)
      have hi' : (s.put j u).cellServers[j]? = some u.srv := by rw [getElem?_put hi, if_pos rfl]
      refine ⟨⟨u.srv, hi', ServerState.work_isRun hran hwork hrun⟩, ?_⟩
      rw [untilEnd_eq hi, untilEnd_eq hi']
      refine PC.untilEnd_next (ServerState.work_next hwork) fun hpc => ?_
      -- the hand-over comes behind a test of the flag
      cases hran with
      | loop =>
        rw [view, ServerState.goto, if_neg (by simp [hrun])] at hpc
        cases hpc
      | _ => cases hpc
    | _ => cases ha

end EasyTcpServer

/-- A closed worker ends. Let the worker `i` be told to stop in a state that a run of the
server comes to. However the run goes on, the worker runs no more sections to their ends than
are left to it, which are seven at most, and when it has run so many its thread is over. Until
then its next section comes to its end or is undefined, except a `DoMsg` whose loop never ends
because a client has a message with a header of `0`. -/
theorem closed_worker_ends (h : Handler) (kind : ServerKind) {s₀ s t : EasyTcpServer}
    {pre tr : List (EasyTcpServer × TcpAct)} (hinit : (tcpServer h kind).init s₀)
    (hsize : 0 ≤ s₀.nRecvBuffSize ∧ s₀.nRecvBuffSize < 2147483648)
    (hpre : (tcpServer h kind).Run s₀ pre s) {i : ℕ} {srv : CELLServer}
    (hi : s.cellServers[i]? = some srv) (hstop : srv.isRun = false)
    (hrun : (tcpServer h kind).Run s tr t) : srv.pc.untilEnd ≤ 7 ∧
      (tr.countP fun x => x.2.isWork i) ≤ srv.pc.untilEnd ∧
      (srv.pc.untilEnd ≤ (tr.countP fun x => x.2.isWork i) →
        ∃ srv', t.cellServers[i]? = some srv' ∧ srv'.pc = .ended) ∧
      ∀ srv', t.cellServers[i]? = some srv' → srv'.pc ≠ .ended →
        ∀ sys, (t.view srv').Reports sys →
          ((∃ r, (tcpServer h kind).step t (.work i sys) r) ↔ (t.view srv').Passable) := by
  have ho := EasyTcpServer.Owned.run hinit hpre
  have hfilled := EasyTcpServer.Filled.run hinit hsize (hpre.append hrun)
  have hresp := hrun.response (W := fun s => s.Owned ∧ s.Stopped i) (D := fun _ => False)
    (m := fun s => s.untilEnd i) (p := fun x => x.2.isWork i) (fun _ _ _ hs _ => hs)
    (fun s a t hs hst => Or.inr ⟨⟨hs.1.step hst, (hs.1.stopped_step hst hs.2).1⟩,
      (hs.1.stopped_step hst hs.2).2⟩) ⟨ho, srv, hi, hstop⟩
  obtain ⟨⟨-, srv', hi', -⟩, hle⟩ := hresp.resolve_left not_false
  simp only [EasyTcpServer.untilEnd_eq hi, EasyTcpServer.untilEnd_eq hi'] at hle
  refine ⟨srv.pc.untilEnd_le, by omega, fun hall => ⟨srv', hi', ?_⟩,
    fun srv' hi' hpc sys hk => hfilled.work_iff hi' hpc hk⟩
  have hzero : srv'.pc.untilEnd = 0 := by omega
  cases hpc : srv'.pc <;> rw [hpc] at hzero <;> first | rfl | cases hzero

/-- A worker is closed in `CheckTime`, and its thread is over after five sections. Where a
client has sent `00 00 00 00`, the thread stays in `DoMsg`. -/
theorem closed_worker_ends_five : (∃ pre s tr t,
    (tcpServer .ignore .select).Run (.newSelect 1 10) pre s ∧
    (tcpServer .ignore .select).Run s tr t ∧
    s.cellServers.map (fun srv => (srv.pc, srv.isRun)) = [(.checkTime, false)] ∧
    ∃ srv, t.cellServers[0]? = some srv ∧ srv.pc = .ended) ∧
    ∃ pre s, (tcpServer .ignore .select).Run (.newSelect 1 10) pre s ∧
      s.cellServers.map (fun srv => (srv.pc, srv.isRun)) = [(.doMsg, false)] ∧
      ∀ sys r, ¬(tcpServer .ignore .select).step s (.work 0 sys) r := by
  let sys : RecvResult → SysCalls := fun r => ⟨0, fun _ => true, .ready [4] [], .events [],
    fun _ => r, fun _ => .accept 0⟩
  let client : TcpAct := .accept 4 (fun _ => 0) fun _ => 0
  let next? := Machine.next? EasyTcpServer.Kernel (EasyTcpServer.act .ignore) 1
  have hinit := EasyTcpServer.newSelect_init .ignore 1 10
  constructor
  · let acts : List TcpAct := client :: List.replicate 3 (.work 0 (sys .fail)) ++ [.close 0]
    let acts' : List TcpAct := List.replicate 5 (.work 0 (sys .fail))
    have heval : ((acts.foldlM next? (.newSelect 1 10)).bind fun s =>
        (acts'.foldlM next? s).map fun _ =>
          s.cellServers.map fun srv => (srv.pc, srv.isRun)) = some [(.checkTime, false)] := by
      decide +kernel
    obtain ⟨s, hs, hmap⟩ := Option.bind_eq_some_iff.mp heval
    obtain ⟨t, ht, hservers⟩ := Option.map_eq_some_iff.mp hmap
    obtain ⟨pre, hpre, -⟩ := Machine.Run.of_next? (tcpServer .ignore .select).init hs
    obtain ⟨tr, htr, hacts⟩ := Machine.Run.of_next? (tcpServer .ignore .select).init ht
    obtain ⟨srv, hcons, hpair⟩ := List.map_eq_singleton_iff.mp hservers
    have hi : s.cellServers[0]? = some srv := by
      rw [hcons]
      rfl
    obtain ⟨hpc, hstop⟩ := Prod.mk.inj hpair
    have hcount : (tr.countP fun x => x.2.isWork 0) = 5 := by
      have hmap : (tr.map Prod.snd).countP (TcpAct.isWork 0) = 5 := by
        rw [hacts]
        rfl
      rwa [List.countP_map] at hmap
    obtain ⟨-, -, hended, -⟩ :=
      closed_worker_ends .ignore .select hinit (by decide) hpre hi hstop htr
    exact ⟨pre, s, tr, t, hpre, htr, hservers, hended (by rw [hpc, hcount]; decide)⟩
  · let acts : List TcpAct := client ::
      List.replicate 5 (.work 0 (sys (.avail [0, 0, 0, 0]))) ++ [.close 0]
    have heval : (acts.foldlM next? (.newSelect 1 10)).map (fun s =>
        (s.cellServers.map fun srv => (srv.pc, srv.isRun),
          s.cellServers.map fun srv => srv.clients.values,
          (s.heap.get? 0).map fun c => c.recvBuff.bytes)) =
          some ([(.doMsg, false)], [[0]], some [0, 0, 0, 0]) := by
      decide +kernel
    obtain ⟨pre, s, hpre, -, hstate⟩ :=
      Machine.Run.of_next?_map (tcpServer .ignore .select).init heval
    simp only [Prod.mk.injEq] at hstate
    obtain ⟨hservers, hvalues, hbytes⟩ := hstate
    obtain ⟨srv, hcons, hpair⟩ := List.map_eq_singleton_iff.mp hservers
    have hi : s.cellServers[0]? = some srv := by
      rw [hcons]
      rfl
    obtain ⟨hpc, hstop⟩ := Prod.mk.inj hpair
    obtain ⟨c, hc, hbs⟩ := Option.map_eq_some_iff.mp hbytes
    rw [hcons] at hvalues
    have hmap : srv.clients.values = [0] := List.singleton_inj.mp hvalues
    obtain ⟨-, -, -, hiff⟩ :=
      closed_worker_ends .ignore .select hinit (by decide) hpre hi hstop (.nil s)
    refine ⟨pre, s, hpre, hservers, fun sys r hstep => ?_⟩
    have hpass := (hiff srv hi (hpc.trans_ne PC.noConfusion) sys (hstep.1 srv hi)).mp ⟨r, hstep⟩
    refine ServerState.not_passable (p := 0) (c := c) hpc ?_ hc (by rw [hbs]; decide) hpass
    rw [EasyTcpServer.view, hmap]
    exact List.mem_singleton_self 0

namespace EasyTcpServer

variable {s t : EasyTcpServer} {a : TcpAct} {i j : ℕ} {srv srv' : CELLServer} {u : ServerState}
  {h : Handler} {kind : ServerKind}

/-! ## Clients that are left -/

/-- A worker whose thread is over holds no client. -/
def EndedEmpty (s : EasyTcpServer) : Prop :=
  ∀ srv ∈ s.cellServers, srv.pc = .ended → srv.held = []

/-- An `Accept` that admits a client does not give it to a worker whose thread is over. -/
def GivesToAlive (s : EasyTcpServer) : TcpAct → Prop
  | .accept cSock _ _ => INVALID_SOCKET ≠ cSock → s.counts.clientCount < s.nMaxClient →
      ∀ (i : ℕ) srv, s.IsMin i srv → srv.pc ≠ .ended
  | _ => True

theorem IsMin.unique (h : s.IsMin i srv) (h' : s.IsMin j srv') : srv = srv' := by
  obtain ⟨hle, hlt⟩ := h.2 j srv' h'.1
  obtain ⟨hle', hlt'⟩ := h'.2 i srv h.1
  rcases Nat.lt_trichotomy i j with hij | rfl | hji
  · exact absurd (hlt' hij) (not_lt.mpr hle)
  · exact Option.some.inj (h.1.symm.trans h'.1)
  · exact absurd (hlt hji) (not_lt.mpr hle')

theorem endedEmpty_put (hi : s.cellServers[i]? = some srv) {P : Prop}
    (hu : (u.srv.pc = .ended → u.srv.held = []) ↔ (srv.pc = .ended → srv.held = []) ∧ P) :
    (s.put i u).EndedEmpty ↔ s.EndedEmpty ∧ P := by
  rw [EndedEmpty, EndedEmpty, put_eq hi]
  conv_rhs => rw [cellServers_eq hi]
  simp only [List.mem_append, List.mem_cons, or_imp, forall_and, forall_eq, hu]
  tauto

/-- A section ends its thread without clients, and is not one of a thread that is over. -/
theorem endedEmpty_worked (ho : s.Owned) (hi : s.cellServers[i]? = some srv) {sys : SysCalls}
    {n : ℕ} (hwork : (s.view srv).work h n sys = some (.ok u))
    (hran : (s.view srv).Ran sys (s.others i) u) :
    srv.pc ≠ .ended ∧ (u.srv.pc = .ended → u.srv.held = []) := by
  have hnext := ServerState.work_next hwork
  refine ⟨fun hpc => ?_, fun hpc => ?_⟩
  · rw [show (s.view srv).srv.pc = .ended from hpc] at hnext
    cases hnext
  · rw [hpc] at hnext
    have hclear : (s.view srv).srv.pc = .clearClients := by
      cases hpc' : (s.view srv).srv.pc <;> simp [hpc', PC.next] at hnext ⊢
    have hclients := ((hran.worked (ho.server hi)).cleared hclear).2
    rw [CELLServer.held, hclients, ServerState.work_clientsBuff_nil hwork (Or.inr hclear)]
    rfl

theorem Owned.endedEmpty_iff (ho : s.Owned) (hstep : (tcpServer h kind).step s a (.ok t)) :
    t.EndedEmpty ↔ s.EndedEmpty ∧ s.GivesToAlive a := by
  cases a with
  | accept cSock sendMem recvMem =>
    cases ho.stepped hstep with
    | refused hrefused =>
      exact (and_iff_left fun hsock hcount => absurd hcount (not_lt.mpr (hrefused hsock))).symm
    | @accepted _ _ _ i srv hsock hcount hmin =>
      have hgives : s.GivesToAlive (.accept cSock sendMem recvMem) ↔ srv.pc ≠ .ended := by
        refine ⟨fun hall => hall hsock hcount i srv hmin, fun hpc _ _ j srv' hmin' => ?_⟩
        rwa [hmin'.unique hmin]
      have hheld : (srv.addClient s.heap.size).held ≠ [] := by
        simp [CELLServer.held, CELLServer.addClient]
      rw [hgives]
      refine endedEmpty_put hmin.1 ⟨fun hall => ?_, fun hand hpc => absurd hpc hand.2⟩
      have hpc : srv.pc ≠ .ended := fun hpc => hheld (hall hpc)
      exact ⟨fun hpc' => absurd hpc' hpc, hpc⟩
  | time4msg =>
    cases ho.stepped hstep with
    | logged => exact (and_iff_left trivial).symm
  | close i =>
    cases ho.stepped hstep with
    | closed hi => exact endedEmpty_put hi (and_iff_left trivial).symm
  | work i sys =>
    obtain ⟨srv, u, n, hi, hwork, hran, rfl⟩ := ho.work_step hstep
    obtain ⟨hpc, hempty⟩ := endedEmpty_worked ho hi hwork hran
    exact endedEmpty_put hi
      ⟨fun _ => ⟨fun hpc' => absurd hpc' hpc, trivial⟩, fun _ => hempty⟩

theorem endedEmpty_init (hinit : (tcpServer h kind).init s) : s.EndedEmpty := by
  intro srv hmem _
  obtain ⟨hclients, hbuff, -⟩ := mem_init hinit hmem
  rw [CELLServer.held, hclients, hbuff]
  rfl

/-- With all threads over, no client is left exactly when no worker holds one. -/
theorem Owned.no_clients_iff (ho : s.Owned) (hended : ∀ srv ∈ s.cellServers, srv.pc = .ended) :
    (∀ p, s.heap.get? p = none) ↔ s.EndedEmpty := by
  constructor
  · intro hnone srv hmem _
    refine List.eq_nil_iff_forall_not_mem.mpr fun p hp => ?_
    obtain ⟨c, hc⟩ := (ho.live p).mpr (List.mem_flatMap.mpr ⟨srv, hmem, hp⟩)
    rw [hnone p] at hc
    cases hc
  · intro hempty p
    refine Option.eq_none_iff_forall_ne_some.mpr fun c hc => ?_
    obtain ⟨srv, hmem, hp⟩ := List.mem_flatMap.mp ((ho.live p).mp ⟨c, hc⟩)
    rw [hempty srv hmem (hended srv hmem)] at hp
    cases hp

end EasyTcpServer

/-- When the server is shut down without a leak. In a run that leaves the threads of all
workers over, every client has been deleted, which closes its descriptor, exactly when no
`Accept` of the run gave a client to a worker whose thread was over already. -/
theorem shut_down_clean_iff (h : Handler) (kind : ServerKind) {s₀ s : EasyTcpServer}
    {tr : List (EasyTcpServer × TcpAct)} (hinit : (tcpServer h kind).init s₀)
    (hrun : (tcpServer h kind).Run s₀ tr s) (hended : ∀ srv ∈ s.cellServers, srv.pc = .ended) :
    (∀ p, s.heap.get? p = none) ↔ ∀ x ∈ tr, x.1.GivesToAlive x.2 := by
  have ho := EasyTcpServer.Owned.run hinit hrun
  have hiff := hrun.iff_forall (fun _ _ _ hs hst => EasyTcpServer.Owned.step hs hst)
    (fun _ _ _ hs hst => hs.endedEmpty_iff hst) (.init hinit)
  rw [ho.no_clients_iff hended, hiff]
  exact and_iff_right (EasyTcpServer.endedEmpty_init hinit)

/-- The only worker ends because `select` fails, and the next client is given to it. -/
theorem shut_down_clean_iff_leak : ∃ tr s,
    (tcpServer .ignore .select).Run (.newSelect 1 10) tr s ∧
    (∀ srv ∈ s.cellServers, srv.pc = .ended) ∧ ¬∀ x ∈ tr, x.1.GivesToAlive x.2 := by
  let sys : SysCalls := ⟨0, fun _ => true, .fail false, .fail false, fun _ => .fail,
    fun _ => .accept 0⟩
  let client : SOCKET → TcpAct := fun fd => .accept fd (fun _ => 0) fun _ => 0
  let acts : List TcpAct := client 4 :: List.replicate 6 (.work 0 sys) ++ [client 5]
  let next? := Machine.next? EasyTcpServer.Kernel (EasyTcpServer.act .ignore) 0
  have heval : (acts.foldlM next? (.newSelect 1 10)).map (fun s =>
      (s.cellServers.map CELLServer.pc, (s.heap.get? 1).isSome)) = some ([.ended], true) := by
    decide +kernel
  obtain ⟨tr, s, hrun, -, hstate⟩ := Machine.Run.of_next?_map (tcpServer .ignore .select).init heval
  obtain ⟨hpcs, hsome⟩ := Prod.mk.inj hstate
  have hended : ∀ srv ∈ s.cellServers, srv.pc = .ended := by
    intro srv hmem
    have hone := List.mem_map_of_mem (f := CELLServer.pc) hmem
    rw [hpcs] at hone
    exact List.mem_singleton.mp hone
  refine ⟨tr, s, hrun, hended, fun hall => ?_⟩
  have hnone := (shut_down_clean_iff .ignore .select (EasyTcpServer.newSelect_init _ _ _) hrun
    hended).mpr hall 1
  rw [hnone] at hsome
  cases hsome

end CellNet
