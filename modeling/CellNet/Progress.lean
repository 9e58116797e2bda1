import CellNet.Delivery
import CellNet.EventOrder

/-!
# Sections that end

A section of a worker comes to its end or is undefined, with one exception. `DoMsg` takes the
messages of a client one after the other out of its buffer. A header that announces `0` is a
complete message of which nothing is taken out, so the loop stays in front of it for ever.
`Passable` says that `DoMsg` meets no such header. The buffers of the clients are well formed
in every state of a run (`Filled`), so that is exact : the next section of a worker comes to
its end, or is undefined, exactly if the worker is `Passable` (`Filled.work_iff`).
-/

namespace CellNet

/-! ## Well-formed buffers -/

/-- The receive buffers of the clients are well formed. -/
def RecvWF (heap : Heap CELLClient) : Prop :=
  ∀ p c, heap.get? p = some c → c.recvBuff.WF

/-- A visit leaves the client, if it is still there, with a well-formed receive buffer. -/
def KeepsRecv (R : Effect Ptr CELLClient NetEvent) : Prop :=
  ∀ p c c' es, R p c (some c') es → c.recvBuff.WF → c'.recvBuff.WF

section Effects

variable {R S : Effect Ptr CELLClient NetEvent} {p : Ptr}
  {x y : Option CELLClient × List NetEvent}

theorem KeepsRecv.visit (hR : KeepsRecv R) (hv : Visit R p x y)
    (hx : ∀ c, x.1 = some c → c.recvBuff.WF) : ∀ c, y.1 = some c → c.recvBuff.WF := by
  cases hv with
  | absent => exact hx
  | present h =>
    rintro c rfl
    exact hR _ _ _ _ h (hx _ rfl)

theorem KeepsRecv.andThen (hR : KeepsRecv R) (hS : KeepsRecv S) : KeepsRecv (R.andThen S) := by
  rintro p c c' es ⟨o, es', hr, hv⟩ hc
  refine hS.visit hv (fun d hd => ?_) c' rfl
  obtain rfl : o = some d := hd
  exact hR _ _ _ _ hr hc

theorem keepsRecv_join (i : ℤ) : KeepsRecv (ServerState.JoinEffect i) := by
  rintro p c c' es ⟨heq, -⟩ hc
  obtain rfl := Option.some.inj heq
  exact hc

theorem keepsRecv_check (dt : ℤ) : KeepsRecv (CheckEffect dt) := by
  intro p c c' es h hc
  cases h with
  | alive => exact hc

theorem keepsRecv_net (s : ServerState) (sys : SysCalls) : KeepsRecv (s.netEffect sys) := by
  refine KeepsRecv.andThen (fun p c c' es h hc => ?_) fun p c c' es h hc => ?_
  · cases h with
    | idle => exact hc
    | read _ h =>
      obtain ⟨ret, b, hrecv, hwf, -⟩ := CELLClient.recvData_eq hc (sys.recv p)
      obtain rfl := (Prod.mk.inj (Except.ok.inj (hrecv.symm.trans h))).2
      exact hwf
  · cases h with
    | idle => exact hc
    | sent _ h =>
      obtain ⟨b, rfl⟩ := CELLClient.sendDataReal_of_ok h
      exact hc

theorem keepsRecv_msg : KeepsRecv ServerState.MsgEffect := by
  rintro p c c' es ⟨c'', fs, heq, -, hR⟩ hc
  obtain rfl := Option.some.inj heq
  exact (hR hc).1

end Effects

namespace ServerState

variable {s s' t : ServerState} {others : List Ptr} {sys : SysCalls} {p : Ptr} {h : Handler}
  {n : ℕ}

theorem Served.recvWF (hserved : s.Served sys t p)
    (hwf : ∀ c, s.heap.get? p = some c → c.recvBuff.WF) :
    ∀ c, t.heap.get? p = some c → c.recvBuff.WF := by
  cases hserved with
  | idle hrow =>
    have hget : t.heap.get? p = s.heap.get? p := congrArg Prod.fst hrow
    rwa [hget]
  | joined _ hv => exact (keepsRecv_join _).visit hv hwf
  | checked _ hv => exact (keepsRecv_check _).visit hv hwf
  | polled _ _ _ hv => exact (keepsRecv_net s sys).visit hv hwf
  | drained _ hv => exact keepsRecv_msg.visit hv hwf

/-- A section leaves the receive buffers well formed. -/
theorem Ran.recvWF (hran : s.Ran sys others t) (hwork : s.work h n sys = some (.ok t))
    (ho : s.Owns others)
    (hcache : s.srv.pc ≠ .ended → ∀ d, s.srv.derived = .select d → s.CacheReal d)
    (hwf : RecvWF s.heap) : RecvWF t.heap := by
  by_cases hpc : s.srv.pc = .clearClients
  · -- the clients that are left are those of the other workers
    have hw := hran.worked ho
    have hheld : t.srv.held = [] := by
      rw [CELLServer.held, (hw.cleared hpc).2, work_clientsBuff_nil hwork (Or.inr hpc)]
      rfl
    intro p c hc
    have hlive := (hw.owns.live p).mp ⟨c, hc⟩
    rw [hheld, List.nil_append] at hlive
    exact hwf p c ((hw.frame p hlive).symm.trans hc)
  · exact fun p => (hran.served ho hcache hpc p).recvWF (hwf p)

/-! ## DoMsg -/

/-- The client `p` has a well-formed receive buffer, which holds `bs`. -/
def Stores (p : Ptr) (s : ServerState) (bs : List UInt8) : Prop :=
  ∃ c, s.heap.get? p = some c ∧ c.recvBuff.WF ∧ c.recvBuff.bytes = bs

/-- Each pass of `DoMsg` takes one message of its client. -/
theorem drain_takesMessages (h : Handler) (p : Ptr) :
    (drain h p).TakesMessages (Stores p) where
  pass := by
    rintro s _ ⟨c, hc, hwf, rfl⟩ hcompl
    obtain ⟨t, ht, hu⟩ := (onNetMsg_sat (E := fun _ => False) hc h c.frontMsg).exists_ok
    have hrecv := h.recvBuff_eq c c.frontMsg
    rw [← hrecv] at hcompl ⊢
    obtain ⟨b, hb, hbwf, -, hbytes⟩ :=
      CELLClient.popFrontMsg_eq (c := h.onNetMsg c c.frontMsg) (hrecv ▸ hwf) hcompl
    have hpop : Exec.Sat (fun _ => False) (popFrontMsg p t) fun u =>
        t.Updated u p { h.onNetMsg c c.frontMsg with recvBuff := b } [] := by
      refine Exec.Sat.bind (call_sat
        (Q := fun _ c' => c' = { h.onNetMsg c c.frontMsg with recvBuff := b })
        (hu.heap p ▸ if_pos rfl) ?_) ?_
      · rw [hb]
        exact ⟨rfl, rfl⟩
      · rintro ⟨_, u⟩ ⟨_, rfl, hu'⟩
        exact hu'
    obtain ⟨u, hu, hupd⟩ := hpop.exists_ok
    exact ⟨u, drainLoop_body_eq (Heap.deref_eq hc) hwf (hrecv ▸ hcompl) ht hu, _,
      (hupd.heap p).trans (if_pos rfl), hbwf, hbytes⟩
  exit := by
    rintro s _ ⟨c, hc, hwf, rfl⟩ hcompl
    exact drainLoop_body_none (Heap.deref_eq hc) hwf hcompl

theorem doMsgFrom_add {es : List (SOCKET × Ptr)} {r : Exec ServerState}
    (hr : doMsgFrom h n es s = some r) (m : ℕ) : doMsgFrom h (n + m) es s = some r := by
  induction es generalizing s with
  | nil => exact hr
  | cons e es ih =>
    rw [doMsgFrom] at hr ⊢
    cases hrun : (drain h e.2).run n s with
    | none => simp [hrun] at hr
    | some x =>
      rw [Loop.run_add hrun m]
      cases x with
      | error u => simpa [hrun] using hr
      | ok t =>
        simp only [hrun] at hr
        exact ih hr

/-- `DoMsg` comes to its end exactly if no message of its clients has a header that announces
`0`. -/
theorem doMsgFrom_ends_iff (h : Handler) (es : List (SOCKET × Ptr)) (ho : s.Owns others)
    (hmem : ∀ e ∈ es, e ∈ s.srv.clients.entries) (hnodup : (es.map Prod.snd).Nodup)
    (hwf : RecvWF s.heap) : (∃ n r, doMsgFrom h n es s = some r) ↔
      ∀ e ∈ es, ∀ c, s.heap.get? e.2 = some c → NoZeroHeader c.recvBuff.bytes := by
  induction es generalizing s with
  | nil => exact iff_of_true ⟨0, _, rfl⟩ fun e he => absurd he List.not_mem_nil
  | cons e es ih =>
    obtain ⟨hnotin, hnodup'⟩ := List.nodup_cons.mp hnodup
    have hp : (e.1, e.2) ∈ s.srv.clients.entries := hmem e List.mem_cons_self
    obtain ⟨c, hc⟩ := ho.get? (CELLServer.mem_held_of_entry hp)
    have hstores : Stores e.2 s c.recvBuff.bytes := ⟨c, hc, hwf _ c hc, rfl⟩
    have hends := (drain_takesMessages h e.2).ends_iff hstores
    -- the loop for `e` leaves the other clients as they are
    have hrest : ∀ {t : ServerState}, (drain h e.2).Ends s (.ok t) →
        ((∃ n r, doMsgFrom h n es t = some r) ↔
          ∀ e ∈ es, ∀ c, s.heap.get? e.2 = some c → NoZeroHeader c.recvBuff.bytes) := by
      intro t ht
      obtain ⟨hv, hsrv⟩ := drain_visited (E := fun _ => True) trivial h ho hp ht
      have hsame : ∀ q, q ≠ e.2 → t.heap.get? q = s.heap.get? q :=
        fun q hq => congrArg Prod.fst (hv.frame q hq)
      have hwf' : RecvWF t.heap := by
        intro q
        by_cases hq : q = e.2
        · rw [hq]
          exact keepsRecv_msg.visit hv.visit (hwf e.2)
        · rw [hsame q hq]
          exact hwf q
      rw [ih hv.kept.owns (fun e he => hsrv ▸ hmem e (List.mem_cons_of_mem _ he)) hnodup' hwf']
      refine forall₂_congr fun e' he' => ?_
      rw [hsame e'.2 fun heq => hnotin (heq ▸ List.mem_map_of_mem he')]
    rw [List.forall_mem_cons]
    constructor
    · rintro ⟨n, r, hr⟩
      rw [doMsgFrom] at hr
      cases hrun : (drain h e.2).run n s with
      | none => simp [hrun] at hr
      | some x =>
        obtain ⟨t, -, -, rfl, -, -⟩ := (drain_takesMessages h e.2).of_ends ⟨n, hrun⟩ hstores
        simp only [hrun] at hr
        refine ⟨fun c' hc' => ?_, (hrest ⟨n, hrun⟩).mp ⟨n, r, hr⟩⟩
        obtain rfl := Option.some.inj (hc.symm.trans hc')
        exact hends.mp ⟨t, n, hrun⟩
    · rintro ⟨hzero, hzeros⟩
      obtain ⟨t, n, hrun⟩ := hends.mpr (hzero c hc)
      obtain ⟨m, r, hr⟩ := (hrest ⟨n, hrun⟩).mpr hzeros
      refine ⟨n + m, r, ?_⟩
      rw [doMsgFrom, Loop.run_add hrun m, Nat.add_comm]
      exact doMsgFrom_add hr n

/-! ## The next section -/

/-- If the thread comes to `DoMsg`, no client of the map has a message with a header that
announces `0` in its buffer. -/
def Passable (s : ServerState) : Prop :=
  s.srv.pc = .doMsg → ∀ p ∈ s.srv.clients.values, ∀ c, s.heap.get? p = some c →
    NoZeroHeader c.recvBuff.bytes

/-- A header of `0` in front of a buffer keeps the thread in `DoMsg`. -/
theorem not_passable {c : CELLClient} (hpc : s.srv.pc = .doMsg) (hp : p ∈ s.srv.clients.values)
    (hc : s.heap.get? p = some c) (hzero : netmsgFraming.frameLen c.recvBuff.bytes = some 0) :
    ¬s.Passable :=
  fun hpass => hpass hpc p hp c hc _ .start hzero

theorem work_ends_iff (h : Handler) (sys : SysCalls) (ho : s.Owns others) (hwf : RecvWF s.heap)
    (hpc : s.srv.pc ≠ .ended) : (∃ n r, s.work h n sys = some r) ↔ s.Passable := by
  cases hs : s.srv.pc
  case doMsg =>
    have hends := doMsgFrom_ends_iff h s.srv.clients.entries ho (fun _ he => he)
      ho.nodup_values hwf
    rw [Passable, forall_prop_of_true hs, SortedMap.values, List.forall_mem_map]
    refine Iff.trans ?_ hends
    simp only [work, hs, doMsg, Option.map_eq_some_iff]
    constructor
    · rintro ⟨n, _, x, hx, -⟩
      exact ⟨n, x, hx⟩
    · rintro ⟨n, x, hx⟩
      exact ⟨n, _, x, hx, rfl⟩
  case testEmpty =>
    refine iff_of_true ⟨0, ?_⟩ fun hmsg => absurd (hs.symm.trans hmsg) PC.noConfusion
    simp only [work, hs]
    split <;> exact ⟨_, rfl⟩
  case ended => exact absurd hs hpc
  all_goals
    refine iff_of_true ⟨0, ?_⟩ fun hmsg => absurd (hs.symm.trans hmsg) PC.noConfusion
    simp only [work, hs]
    exact ⟨_, rfl⟩

end ServerState

namespace EasyTcpServer

variable {s t : EasyTcpServer} {a : TcpAct} {i : ℕ} {srv : CELLServer} {h : Handler}
  {kind : ServerKind}

/-! ## The whole server -/

/-- The buffers of the clients are well formed, and those of new clients will be. -/
structure Filled (s : EasyTcpServer) : Prop extends Ordered s where
  size : 0 ≤ s.nRecvBuffSize ∧ s.nRecvBuffSize < 2147483648
  recvWF : RecvWF s.heap

theorem Filled.init (hinit : (tcpServer h kind).init s)
    (hsize : 0 ≤ s.nRecvBuffSize ∧ s.nRecvBuffSize < 2147483648) : s.Filled := by
  refine ⟨.init hinit, hsize, fun p c hc => ?_⟩
  rw [hinit.1] at hc
  cases hc

theorem Filled.step (hs : s.Filled) (hstep : (tcpServer h kind).step s a (.ok t)) :
    t.Filled := by
  have ho := hs.toOrdered.step hstep
  cases a with
  | work i sys =>
    obtain ⟨srv, u, n, hi, hwork, hran, rfl⟩ := hs.toOwned.work_step hstep
    exact ⟨ho, hs.size, hran.recvWF hwork (hs.toOwned.server hi) (hs.cacheReal hi) hs.recvWF⟩
  | accept cSock sendMem recvMem =>
    cases hs.toOwned.stepped hstep with
    | refused => exact hs
    | accepted _ _ hmin =>
      refine ⟨ho, hs.size, fun p c hc => ?_⟩
      have hget := Heap.get?_new.symm.trans hc
      split at hget
      · obtain rfl := Option.some.inj hget
        exact CELLBuffer.new_wf hs.size.1 hs.size.2 _
      · exact hs.recvWF p c hget
  | time4msg =>
    cases hs.toOwned.stepped hstep with
    | logged => exact ⟨ho, hs.size, hs.recvWF⟩
  | close i =>
    cases hs.toOwned.stepped hstep with
    | closed => exact ⟨ho, hs.size, hs.recvWF⟩

theorem Filled.run {s₀ : EasyTcpServer} {tr : List (EasyTcpServer × TcpAct)}
    (hinit : (tcpServer h kind).init s₀)
    (hsize : 0 ≤ s₀.nRecvBuffSize ∧ s₀.nRecvBuffSize < 2147483648)
    (hrun : (tcpServer h kind).Run s₀ tr s) : s.Filled :=
  hrun.invariant (fun _ _ _ hs hst => Filled.step hs hst) (.init hinit hsize)

/-- The next section of a worker comes to its end or is undefined, whatever the kernel
reports, exactly if the worker is `Passable`. -/
theorem Filled.work_iff (hs : s.Filled) (hi : s.cellServers[i]? = some srv)
    (hpc : srv.pc ≠ .ended) {sys : SysCalls} (hk : (s.view srv).Reports sys) :
    (∃ r, (tcpServer h kind).step s (.work i sys) r) ↔ (s.view srv).Passable := by
  rw [← ServerState.work_ends_iff h sys (hs.toOwned.server hi) hs.recvWF hpc]
  have hact : ∀ n, s.act h n (.work i sys) =
      ((s.view srv).work h n sys).map (s.put i <$> ·) := by
    intro n
    rw [act, onServer, hi]
  constructor
  · rintro ⟨r, -, n, hn⟩
    rw [hact] at hn
    obtain ⟨x, hx, -⟩ := Option.map_eq_some_iff.mp hn
    exact ⟨n, x, hx⟩
  · rintro ⟨n, x, hx⟩
    refine ⟨s.put i <$> x, fun srv' hi' => ?_, n, ?_⟩
    · obtain rfl := Option.some.inj (hi.symm.trans hi')
      exact hk
    · rw [hact, hx]
      rfl

end EasyTcpServer

end CellNet
