import CellNet.Progress

/-!
# How long a client waits

A client waits in the buffer of its worker until the thread of that worker comes to the
hand-over. `PC.untilHandOver` counts the sections to go : each one lowers it, and the
hand-over leaves no client in the buffer. Other threads may run in between, and change
neither where the thread is nor who waits. So a client has joined after six sections of its
worker at most, unless the loop of the worker is over : `waiting_client_joins`. A section is
one that ends. Each does, or is undefined, but a `DoMsg` over a header that announces `0`.
-/

namespace CellNet

/-- The sections left to a thread at `pc` until the hand-over is done. -/
def PC.untilHandOver : PC → ℕ
  | .handOver => 1
  | .loop => 2
  | .doMsg => 3
  | .doNetEvents => 4
  | .checkTime => 5
  | .testEmpty => 6
  | .clearClients | .ended => 0

theorem PC.untilHandOver_le (pc : PC) : pc.untilHandOver ≤ 6 := by
  cases pc <;> decide

/-- Each section but the hand-over comes closer to it, while the loop runs. -/
theorem PC.untilHandOver_next {pc pc' : PC} (h : pc' ∈ pc.next) (hne : pc ≠ .handOver) :
    pc'.untilHandOver + 1 ≤ pc.untilHandOver ∨ pc' = .clearClients ∨ pc' = .ended := by
  cases pc <;> simp [PC.next] at h hne <;> rcases h with rfl | rfl <;> decide

theorem CELLServer.untilHandOver_pos {srv : CELLServer} (h : ¬srv.LoopEnded) :
    0 < srv.pc.untilHandOver := by
  unfold CELLServer.LoopEnded at h
  cases hpc : srv.pc <;> simp [hpc, PC.untilHandOver] at h ⊢

namespace ServerState

variable {s t : ServerState} {others : List Ptr} {sys : SysCalls} {h : Handler} {n : ℕ} {p : Ptr}

/-- A section only adds to the events about a client. -/
theorem Ran.history_isPrefix (hran : s.Ran sys others t)
    (hwork : s.work h n sys = some (.ok t)) (ho : s.Owns others)
    (hcache : s.srv.pc ≠ .ended → ∀ d, s.srv.derived = .select d → s.CacheReal d) (p : Ptr) :
    (s.table p).2 <+: (t.table p).2 := by
  have hround : ∀ {u : ServerState}, s.srv.pc = .doNetEvents → s.Rounded sys u others →
      (s.table p).2 <+: (u.table p).2 := by
    intro u hpc hround
    obtain ⟨v, -, htable, -, -, htour⟩ := hround.toured ho (hcache (by simp [hpc]))
    rw [← htable]
    exact htour.swept.history_isPrefix p
  cases hran with
  | loop => exact List.prefix_refl _
  | handOver _ hover => exact hover.swept.history_isPrefix p
  | skip => exact List.prefix_refl _
  | busy => exact List.prefix_refl _
  | checkTime _ htour => exact htour.swept.history_isPrefix p
  | round hpc hr =>
    have hpref := hround hpc hr
    exact hpref
  | stop hpc hr =>
    have hpref := hround hpc hr
    exact hpref
  | doMsg _ htour => exact htour.swept.history_isPrefix p
  | clearClients hpc =>
    rw [table, table, work_events hwork hpc]

/-- A client that waits no longer has joined. -/
theorem Passed.joined (h : s.Passed t) (ho : t.Owns others) (hp : p ∈ s.srv.held)
    (hothers : p ∉ others) (hbuff : p ∉ t.srv.clientsBuff) : (t.table p).2 ≠ [] := by
  have hstage : ∀ {st}, NetEvent.stage (t.table p).2 = some st → st ≠ .waiting →
      (t.table p).2 ≠ [] := by
    intro st hst hne hnil
    rw [hnil] at hst
    exact hne (Option.some.inj hst).symm
  rcases hget : t.heap.get? p with _ | c
  · exact hstage (h.gone p hp hget) (by decide)
  · have hheld := (List.mem_append.mp ((ho.live p).mp ⟨c, hget⟩)).resolve_right hothers
    exact hstage (h.staged.joined p ((List.mem_append.mp hheld).resolve_right hbuff)) (by decide)

end ServerState

namespace EasyTcpServer

variable {s t : EasyTcpServer} {a : TcpAct} {i j : ℕ} {srv : CELLServer} {u : ServerState}
  {h : Handler} {kind : ServerKind} {p : Ptr}

/-- The loop of the worker `i` is over. -/
def LoopOver (s : EasyTcpServer) (i : ℕ) : Prop :=
  ∃ srv, s.cellServers[i]? = some srv ∧ srv.LoopEnded

theorem Owned.loopOver (ho : s.Owned) (hstep : (tcpServer h kind).step s a (.ok t))
    (hs : s.LoopOver i) : t.LoopOver i := by
  obtain ⟨srv, hi, hended⟩ := hs
  obtain ⟨srv', hi', hpc | ⟨-, hnext⟩⟩ := ho.pc_step hstep hi
  · refine ⟨srv', hi', ?_⟩
    rwa [CELLServer.LoopEnded, hpc]
  · rcases hended with hpc | hpc <;> rw [hpc] at hnext
    · exact ⟨srv', hi', Or.inr (List.mem_singleton.mp hnext)⟩
    · cases hnext

/-- The client `p` waits in the buffer of the worker `i`, whose loop runs. -/
def WaitsAt (s : EasyTcpServer) (i : ℕ) (p : Ptr) : Prop :=
  ∃ srv, s.cellServers[i]? = some srv ∧ ¬srv.LoopEnded ∧ p ∈ srv.clientsBuff

/-- The sections left to the worker `i` until the hand-over is done. -/
def untilHandOver (s : EasyTcpServer) (i : ℕ) : ℕ :=
  (s.cellServers[i]?.map fun srv => srv.pc.untilHandOver).getD 0

theorem untilHandOver_eq (hi : s.cellServers[i]? = some srv) :
    s.untilHandOver i = srv.pc.untilHandOver := by
  rw [untilHandOver, hi]
  rfl

theorem Ordered.eventsOf_isPrefix (ho : s.Ordered) (hstep : (tcpServer h kind).step s a (.ok t))
    (p : Ptr) : s.eventsOf p <+: t.eventsOf p := by
  cases a with
  | work j sys =>
    obtain ⟨srv, u, n, hj, hwork, hran, rfl⟩ := ho.toOwned.work_step hstep
    exact hran.history_isPrefix hwork (ho.toOwned.server hj)
      (ho.cache srv (List.mem_of_getElem? hj)) p
  | _ => cases ho.toOwned.stepped hstep <;> exact List.prefix_refl _

/-- A section of the worker joins the client, or comes closer to the hand-over. -/
theorem Ordered.waitsAt_step (ho : s.Ordered) (hstep : (tcpServer h kind).step s a (.ok t))
    (hs : s.WaitsAt i p) : (t.eventsOf p ≠ [] ∨ t.LoopOver i) ∨
      t.WaitsAt i p ∧ t.untilHandOver i + (a.isWork i).toNat ≤ s.untilHandOver i := by
  obtain ⟨srv, hi, hruns, hp⟩ := hs
  rcases ha : a.isWork i with _ | _
  · obtain ⟨srv', hi', hpc, hbuff⟩ := ho.toOwned.other_step hstep ha hi
    refine Or.inr ⟨⟨srv', hi', ?_, hbuff p hp⟩, ?_⟩
    · rwa [CELLServer.LoopEnded, hpc]
    · rw [untilHandOver_eq hi, untilHandOver_eq hi', hpc]
      exact le_refl _
  · cases a with
    | work j sys =>
      obtain rfl : j = i := of_decide_eq_true ha
      obtain ⟨srv', u, n, hj, hwork, hran, rfl⟩ := ho.toOwned.work_step hstep
      obtain rfl : srv' = srv := Option.some.inj (hj.symm.trans hi)
      have hown := ho.toOwned.server hi
      have hi' : (s.put j u).cellServers[j]? = some u.srv := by rw [getElem?_put hi, if_pos rfl]
      have hheld : p ∈ srv'.held := List.mem_append_right _ hp
      by_cases hbuff : p ∈ u.srv.clientsBuff
      · have hne : srv'.pc ≠ .handOver := by
          intro hpc
          rw [ServerState.work_clientsBuff_nil hwork (Or.inl hpc)] at hbuff
          cases hbuff
        rcases PC.untilHandOver_next (ServerState.work_next hwork) hne with hlt | hended
        · by_cases hover : u.srv.LoopEnded
          · exact Or.inl (Or.inr ⟨u.srv, hi', hover⟩)
          · refine Or.inr ⟨⟨u.srv, hi', hover, hbuff⟩, ?_⟩
            rw [untilHandOver_eq hi, untilHandOver_eq hi']
            exact hlt
        · exact Or.inl (Or.inr ⟨u.srv, hi', hended⟩)
      · have hmem := List.mem_of_getElem? hi
        have hpass := hran.passed hwork hown (ho.cache srv' hmem)
          (fun hpc => hruns (Or.inl hpc)) (ho.staged srv' hmem)
        exact Or.inl (Or.inl (hpass.joined (hran.worked hown).owns hheld
          (hown.not_mem_others hheld) hbuff))
    | _ => cases ha

/-- The first event about a client is `OnNetJoin`. -/
theorem Ordered.joined_of_ne_nil (ho : s.Ordered) (hne : s.eventsOf p ≠ []) :
    .onNetJoin p ∈ s.events := by
  obtain ⟨st, hst⟩ := ho.stage p
  obtain ⟨e, es, hes⟩ := List.exists_cons_of_ne_nil hne
  have hmem : e ∈ s.eventsOf p := hes ▸ List.mem_cons_self
  obtain ⟨he, hp⟩ := List.mem_filter.mp hmem
  rw [hes, NetEvent.stage, List.foldlM_cons] at hst
  cases e with
  | onNetJoin q =>
    obtain rfl : q = p := of_decide_eq_true hp
    exact he
  | _ => cases hst

end EasyTcpServer

/-- A client waits for six sections of its worker at most. Let `p` be in the buffer of the
worker `i` in a state that a run of the server comes to. Then, however the run goes on,
`OnNetJoin` was called for `p` by the time the worker has run six more sections to their
ends, unless its loop is over by then. Until its thread is over, the next section comes to
its end or is undefined, except a `DoMsg` whose loop never ends because a client has a message
with a header of `0`. -/
theorem waiting_client_joins (h : Handler) (kind : ServerKind) {s₀ s t : EasyTcpServer}
    {pre tr : List (EasyTcpServer × TcpAct)} (hinit : (tcpServer h kind).init s₀)
    (hsize : 0 ≤ s₀.nRecvBuffSize ∧ s₀.nRecvBuffSize < 2147483648)
    (hpre : (tcpServer h kind).Run s₀ pre s) {i : ℕ} {srv : CELLServer} {p : Ptr}
    (hi : s.cellServers[i]? = some srv) (hp : p ∈ srv.clientsBuff)
    (hrun : (tcpServer h kind).Run s tr t) :
    (6 ≤ (tr.countP fun x => x.2.isWork i) → .onNetJoin p ∈ t.events ∨ t.LoopOver i) ∧
    ∀ srv', t.cellServers[i]? = some srv' → srv'.pc ≠ .ended →
      ∀ sys, (t.view srv').Reports sys →
        ((∃ r, (tcpServer h kind).step t (.work i sys) r) ↔ (t.view srv').Passable) := by
  have hfilled := EasyTcpServer.Filled.run hinit hsize (hpre.append hrun)
  refine ⟨fun hsix => ?_, fun srv' hi' hpc sys hk => hfilled.work_iff hi' hpc hk⟩
  have ho := EasyTcpServer.Ordered.run hinit hpre
  have hot := EasyTcpServer.Ordered.run hinit (hpre.append hrun)
  by_cases hended : srv.LoopEnded
  · exact Or.inr (hrun.invariant (I := fun s => s.Ordered ∧ s.LoopOver i)
      (fun _ _ _ hs hst => ⟨hs.1.step hst, hs.1.toOwned.loopOver hst hs.2⟩)
      ⟨ho, srv, hi, hended⟩).2
  have hresp := hrun.response (W := fun s => s.Ordered ∧ s.WaitsAt i p)
    (D := fun s => s.Ordered ∧ (s.eventsOf p ≠ [] ∨ s.LoopOver i))
    (m := fun s => s.untilHandOver i) (p := fun x => x.2.isWork i)
    (fun s a t hs hst => ⟨hs.1.step hst, ?_⟩)
    (fun s a t hs hst => (hs.1.waitsAt_step hst hs.2).imp (fun hd => ⟨hs.1.step hst, hd⟩)
      fun hw => ⟨⟨hs.1.step hst, hw.1⟩, hw.2⟩) ⟨ho, srv, hi, hended, hp⟩
  · rcases hresp with ⟨-, hne | hover⟩ | ⟨⟨-, srv', hi', hruns, -⟩, hle⟩
    · exact Or.inl (hot.joined_of_ne_nil hne)
    · exact Or.inr hover
    · have hpos := CELLServer.untilHandOver_pos hruns
      have hmax := srv.pc.untilHandOver_le
      simp only [EasyTcpServer.untilHandOver_eq hi, EasyTcpServer.untilHandOver_eq hi'] at hle
      omega
  · rcases hs.2 with hne | hover
    · refine Or.inl fun hnil => hne ?_
      have hpref := hs.1.eventsOf_isPrefix hst p
      rw [hnil] at hpref
      exact List.prefix_nil.mp hpref
    · exact Or.inr (hs.1.toOwned.loopOver hst hover)

/-- A client is accepted while the thread is in `CheckTime`, and the thread comes round. Where
another client has sent `00 00 00 00`, the thread stays in `DoMsg` and the client waits. -/
theorem waiting_client_joins_late : (∃ pre s tr t,
    (tcpServer .ignore .select).Run (.newSelect 1 10) pre s ∧
    (tcpServer .ignore .select).Run s tr t ∧
    s.cellServers.map (fun srv => (srv.pc, srv.clientsBuff)) = [(.checkTime, [1])] ∧
    .onNetJoin 1 ∈ t.events) ∧
    ∃ pre s, (tcpServer .ignore .select).Run (.newSelect 1 10) pre s ∧
      s.cellServers.map (fun srv => (srv.pc, srv.clientsBuff)) = [(.doMsg, [1])] ∧
      ∀ sys r, ¬(tcpServer .ignore .select).step s (.work 0 sys) r := by
  let sys : List UInt8 → SysCalls := fun bs => ⟨0, fun _ => true, .ready [4] [], .events [],
    fun _ => .avail bs, fun _ => .accept 0⟩
  let client : SOCKET → TcpAct := fun fd => .accept fd (fun _ => 0) fun _ => 0
  let next? := Machine.next? EasyTcpServer.Kernel (EasyTcpServer.act .ignore) 2
  have hinit := EasyTcpServer.newSelect_init .ignore 1 10
  constructor
  · let acts : List TcpAct := client 4 :: List.replicate 3 (.work 0 (sys [])) ++ [client 5]
    let acts' : List TcpAct := List.replicate 6 (.work 0 (sys [4, 0, 15, 0]))
    have heval : ((acts.foldlM next? (.newSelect 1 10)).bind fun s =>
        (acts'.foldlM next? s).map fun t =>
          (s.cellServers.map fun srv => (srv.pc, srv.clientsBuff),
            t.cellServers.map CELLServer.pc)) = some ([(.checkTime, [1])], [.checkTime]) := by
      decide +kernel
    obtain ⟨s, hs, hmap⟩ := Option.bind_eq_some_iff.mp heval
    obtain ⟨t, ht, hstate⟩ := Option.map_eq_some_iff.mp hmap
    obtain ⟨hservers, hpcs⟩ := Prod.mk.inj hstate
    obtain ⟨pre, hpre, -⟩ := Machine.Run.of_next? (tcpServer .ignore .select).init hs
    obtain ⟨tr, htr, hacts⟩ := Machine.Run.of_next? (tcpServer .ignore .select).init ht
    obtain ⟨srv, hcons, hpair⟩ := List.map_eq_singleton_iff.mp hservers
    have hi : s.cellServers[0]? = some srv := by
      rw [hcons]
      rfl
    have hp : 1 ∈ srv.clientsBuff := by
      rw [(Prod.mk.inj hpair).2]
      exact List.mem_singleton.mpr rfl
    have hsix : 6 ≤ tr.countP fun x => x.2.isWork 0 := by
      have hcount : (tr.map Prod.snd).countP (TcpAct.isWork 0) = 6 := by
        rw [hacts]
        rfl
      rw [List.countP_map] at hcount
      exact hcount.ge
    obtain ⟨hjoins, -⟩ := waiting_client_joins .ignore .select hinit (by decide) hpre hi hp htr
    refine ⟨pre, s, tr, t, hpre, htr, hservers, (hjoins hsix).resolve_right ?_⟩
    rintro ⟨srv', hi', hended⟩
    have hpc := List.mem_map_of_mem (f := CELLServer.pc) (List.mem_of_getElem? hi')
    rw [hpcs, List.mem_singleton] at hpc
    rcases hended with hpc' | hpc' <;> rw [hpc'] at hpc <;> cases hpc
  · let acts : List TcpAct := client 4 :: List.replicate 5 (.work 0 (sys [0, 0, 0, 0])) ++
      [client 5]
    have heval : (acts.foldlM next? (.newSelect 1 10)).map (fun s =>
        (s.cellServers.map fun srv => (srv.pc, srv.clientsBuff),
          s.cellServers.map fun srv => srv.clients.values,
          (s.heap.get? 0).map fun c => c.recvBuff.bytes)) =
          some ([(.doMsg, [1])], [[0]], some [0, 0, 0, 0]) := by
      decide +kernel
    obtain ⟨pre, s, hpre, -, hstate⟩ :=
      Machine.Run.of_next?_map (tcpServer .ignore .select).init heval
    simp only [Prod.mk.injEq] at hstate
    obtain ⟨hservers, hvalues, hbytes⟩ := hstate
    obtain ⟨srv, hcons, hpair⟩ := List.map_eq_singleton_iff.mp hservers
    have hi : s.cellServers[0]? = some srv := by
      rw [hcons]
      rfl
    obtain ⟨hpc, hbuff⟩ := Prod.mk.inj hpair
    have hp : 1 ∈ srv.clientsBuff := by
      rw [hbuff]
      exact List.mem_singleton.mpr rfl
    obtain ⟨c, hc, hbs⟩ := Option.map_eq_some_iff.mp hbytes
    rw [hcons] at hvalues
    have hmap : srv.clients.values = [0] := List.singleton_inj.mp hvalues
    obtain ⟨-, hiff⟩ :=
      waiting_client_joins .ignore .select hinit (by decide) hpre hi hp (.nil s)
    refine ⟨pre, s, hpre, hservers, fun sys r hstep => ?_⟩
    have hpass := (hiff srv hi (hpc.trans_ne PC.noConfusion) sys (hstep.1 srv hi)).mp ⟨r, hstep⟩
    refine ServerState.not_passable (p := 0) (c := c) hpc ?_ hc (by rw [hbs]; decide) hpass
    rw [EasyTcpServer.view, hmap]
    exact List.mem_singleton_self 0

end CellNet
