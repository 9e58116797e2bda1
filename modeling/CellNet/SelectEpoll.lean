import CellNet.SelectCache

/-!
# The two servers do the same work

`CELLSelectServer::DoNetEvents` reads all clients and then writes all clients, in the
order of the map and removing entries as it goes. `CELLEpollServer::DoNetEvents` reads and
writes one client at a time, in the order of the events. Both are sweeps of the same
effect over the clients (`netEffect`), and a sweep has one outcome whatever the order of
its visits (`Swept.unique`) : from the same state, and with the same sockets, they leave
the same clients and raise the same events (`servers_equivalent`).
-/

namespace CellNet

theorem ReadEffect.functional {ready : Ptr → CELLClient → Prop} {r : Ptr → RecvResult} :
    Effect.Functional fun p c => ReadEffect (ready p c) (r p) p c :=
  fun _ _ _ _ _ _ h h' => h.unique h'

theorem WriteEffect.functional {ready : Ptr → CELLClient → Prop} {r : Ptr → SendResult} :
    Effect.Functional fun p c => WriteEffect (ready p c) (r p) p c :=
  fun _ _ _ _ _ _ h h' => h.unique h'

namespace ServerState

variable {s e s' e' : ServerState} {others : List Ptr} {sys sys' : SysCalls}

theorem netEffect_functional : (s.netEffect sys).Functional :=
  ReadEffect.functional.andThen WriteEffect.functional

/-- Without undefined behaviour : there are clients, each has a descriptor that is a
position of the sets, and the buffers of all clients are well formed. -/
theorem Defined.of_wf {E : UB → Prop} (hnonempty : s.srv.clients.entries ≠ [])
    (hfd : ∀ x ∈ s.srv.clients.entries, 0 ≤ x.1 ∧ x.1 < CELL_MAX_FD)
    (hwf : ∀ p c, s.heap.get? p = some c → c.recvBuff.WF ∧ c.sendBuff.WF) (sys : SysCalls) :
    s.Defined E sys where
  nonempty := Or.inr hnonempty
  fd := Or.inr hfd
  recv p c hc := by
    obtain ⟨ret, b, hr, -⟩ := CELLClient.recvData_eq (hwf p c hc).1 (sys.recv p)
    rw [hr]
    trivial
  send p c hc b := by
    obtain ⟨ret, k, b', hr, -⟩ := CELLClient.sendDataReal_eq
      (c := { c with recvBuff := b }) (hwf p c hc).2 (sys.send p)
    rw [hr]
    trivial

/-- A select server `s` and an epoll server `e` in the same state, with clients that can be
polled. That the owner and the cache are right is so in every state of a run
(`CacheOwned.run`). -/
structure Twins (s e : ServerState) (others : List Ptr) : Prop where
  select : s.srv.kind = .select
  epoll : e.srv.kind = .epoll
  owns : s.Owns others
  owns' : e.Owns others
  cache : ∀ d, s.srv.derived = .select d → s.CacheReal d
  heap : e.heap = s.heap
  events : e.events = s.events
  clients : e.srv.clients = s.srv.clients
  clientsBuff : e.srv.clientsBuff = s.srv.clientsBuff
  nonempty : s.srv.clients.entries ≠ []
  fd : ∀ x ∈ s.srv.clients.entries, 0 ≤ x.1 ∧ x.1 < CELL_MAX_FD
  wf : ∀ p c, s.heap.get? p = some c → c.recvBuff.WF ∧ c.sendBuff.WF

/-- `select` and `epoll_wait` report the same clients, where a client is polled for writing
if it has something to send, and the sockets behave alike. Neither call fails. -/
structure SameReports (s e : ServerState) (sys sys' : SysCalls) : Prop where
  select : ¬sys.select.Fails
  wait : ∃ evs, sys'.wait = .events evs
  reports : e.Reports sys'
  recv : sys'.recv = sys.recv
  send : sys'.send = sys.send
  readable : ∀ k p, (k, p) ∈ s.srv.clients.entries →
    (k ∈ sys.select.readable ↔ ∃ ev ∈ sys'.wait.wait.2, ev.ptr = some p ∧ ev.epollin = true)
  writable : ∀ k p c, (k, p) ∈ s.srv.clients.entries → s.heap.get? p = some c →
    (c.needWrite = true ∧ k ∈ sys.select.writable ↔
      ∃ ev ∈ sys'.wait.wait.2, ev.ptr = some p ∧ ev.epollout = true)

theorem Twins.table (ht : Twins s e others) : e.table = s.table := by
  funext p
  exact congrArg₂ (fun h es => (Heap.get? h p, List.filter (fun e => e.pClient = p) es))
    ht.heap ht.events

/-- The epoll server does to each client what the select server does. -/
theorem SameReports.netEffect (hr : SameReports s e sys sys') (ht : Twins s e others)
    {p : Ptr} (hp : p ∈ s.srv.clients.values) {c : CELLClient} (hc : s.heap.get? p = some c)
    {o : Option CELLClient} {es : List NetEvent} (h : e.netEffect sys' p c o es) :
    s.netEffect sys p c o es := by
  obtain ⟨⟨k, _⟩, hmem, rfl⟩ := List.mem_map.mp hp
  obtain rfl := ht.owns.key_eq hmem hc
  unfold ServerState.netEffect at h
  rw [hr.recv, hr.send] at h
  refine netEffect_of ?_ (fun b => ?_) h
  · unfold Readable
    rw [ht.select, ht.epoll]
    exact (hr.readable _ _ hmem).symm
  · unfold Writable
    rw [ht.select, ht.epoll]
    exact (hr.writable _ _ c hmem hc).symm

end ServerState

/-- The select server and the epoll server do the same work. From the same state, with the
same clients readable and writable and the same outcome of every `recv` and `send`, one
`DoNetEvents` of each returns true and leaves the same clients, each in the same state, in
the same map, and the same events have been raised, up to their order. -/
theorem servers_equivalent {s e : ServerState} {others : List Ptr} {sys sys' : SysCalls}
    (ht : ServerState.Twins s e others) (hr : ServerState.SameReports s e sys sys') :
    ∃ s' e', s.doNetEvents sys = .ok (true, s') ∧ e.doNetEvents sys' = .ok (true, e') ∧
      (∀ p, s'.heap.get? p = e'.heap.get? p) ∧ s'.srv.clients = e'.srv.clients ∧
      s'.srv.clientsBuff = e'.srv.clientsBuff ∧ s'.events.Perm e'.events := by
  have hval : e.srv.clients.values = s.srv.clients.values := by rw [ht.clients]
  obtain ⟨d, hd⟩ := CELLServer.kind_eq_select.mp ht.select
  obtain ⟨f, hf⟩ := CELLServer.kind_eq_epoll.mp ht.epoll
  have hreads : s.Reports sys := by
    rw [ServerState.Reports, hd]
    trivial
  obtain ⟨⟨b, s'⟩, hs, hret, hround⟩ := (ServerState.doNetEvents_sat ht.owns hreads
    (.of_wf ht.nonempty ht.fd ht.wf sys) (Or.inr ht.cache)).exists_ok
  have hnocache : ∀ d, e.srv.derived = .select d → e.CacheReal d :=
    fun d' hd' => by simp [hf] at hd'
  obtain ⟨⟨b', e'⟩, he, hret', hround'⟩ := (ServerState.doNetEvents_sat ht.owns' hr.reports
    (.of_wf (by rw [ht.clients]; exact ht.nonempty) (by rw [ht.clients]; exact ht.fd)
      (by rw [ht.heap]; exact ht.wf) sys') (Or.inr hnocache)).exists_ok
  obtain rfl : b = true := by
    rw [← Bool.not_eq_false, hret, ServerState.WaitFails, ht.select]
    exact fun hfail => hr.select (by rw [hfail]; trivial)
  obtain rfl : b' = true := by
    obtain ⟨evs, hevs⟩ := hr.wait
    rw [← Bool.not_eq_false, hret', ServerState.WaitFails, ht.epoll, hevs]
    exact fun hfail => by simp at hfail
  obtain ⟨u, hu, hutable, huclients, hubuff, htour⟩ := hround.toured ht.owns ht.cache
  obtain ⟨v, hv, hvtable, hvclients, hvbuff, htour'⟩ := hround'.toured ht.owns' hnocache
  -- the two sweeps start from one table and have one effect
  have hstart : v.table = s.table := hvtable.trans ht.table
  rw [hval] at htour'
  have hsame := htour'.mono fun p hp c o es hc hR =>
    hr.netEffect ht hp ((congrArg Prod.fst (congrFun hstart p)).symm.trans hc) hR
  have htable : s'.table = e'.table :=
    htour.swept.unique ServerState.netEffect_functional
      (hutable ▸ hstart ▸ hsame.swept)
  have hget : ∀ p, s'.heap.get? p = e'.heap.get? p :=
    fun p => congrArg Prod.fst (congrFun htable p)
  refine ⟨s', e', hs, he, hget, SortedMap.eq_of_mem_iff fun x => ?_, ?_,
    perm_of_history NetEvent.pClient fun p => congrArg Prod.snd (congrFun htable p)⟩
  · rw [htour.mem_iff hu, htour'.mem_iff hv, hget, huclients, hvclients, ht.clients]
  · rw [htour.shrunk.clientsBuff, htour'.shrunk.clientsBuff, hubuff, hvbuff, ht.clientsBuff]

/-- Of three clients with something to send one cannot be read, one can be read but not
written, and one is only written. The events come in the opposite order of the map. -/
theorem servers_equivalent_mixed : ∃ (s e s' e' : ServerState) (sys sys' : SysCalls),
    s.srv.clients.entries = [(3, 0), (4, 1), (5, 2)] ∧
    s.doNetEvents sys = .ok (true, s') ∧ e.doNetEvents sys' = .ok (true, e') ∧
    (∀ p, s'.heap.get? p = e'.heap.get? p) ∧ s'.events.Perm e'.events := by
  let client : SOCKET → CELLClient := fun fd =>
    { CELLClient.new fd 4 4 (fun _ => 0) fun _ => 0 with sendBuff := ⟨[7, 0, 0, 0], 1, 4, 0⟩ }
  let heap : Heap CELLClient := ⟨[some (client 3), some (client 4), some (client 5)]⟩
  let srv : Derived → CELLServer := fun derived =>
    { CELLServer.new 1 0 derived with
      clients := ⟨[(3, 0), (4, 1), (5, 2)], by decide⟩
      pc := .doNetEvents }
  let ep : CELLEpoll := ⟨[(3, ⟨0, false⟩), (4, ⟨1, false⟩), (5, ⟨2, false⟩)]⟩
  let s : ServerState := ⟨heap, .zero, [], srv (.select ⟨.zero, .zero, .zero, 0⟩)⟩
  let e : ServerState := ⟨heap, .zero, [], srv (.epoll ⟨ep⟩)⟩
  let recv : Ptr → RecvResult := fun p => if p = 0 then .fail else .avail [1, 2]
  let send : Ptr → SendResult := fun p => if p = 1 then .fail else .accept 1
  let evs : List EpollEvent :=
    [⟨some 2, false, true⟩, ⟨some 1, true, true⟩, ⟨some 0, true, false⟩]
  let sys : SysCalls := ⟨0, fun _ => true, .ready [3, 4] [4, 5], .events [], recv, send⟩
  let sys' : SysCalls := ⟨0, fun _ => true, .ready [] [], .events evs, recv, send⟩
  have hlive : ∀ p c, heap.get? p = some c → (p = 0 ∧ c = client 3) ∨ (p = 1 ∧ c = client 4) ∨
      (p = 2 ∧ c = client 5) := by
    intro p c hc
    rcases p with _ | _ | _ | p <;> simp_all [heap, Heap.get?]
  have howns : ∀ derived, (∀ x ∈ (srv derived).registered,
      (x.1, x.2.ptr) ∈ (srv derived).clients.entries) →
      ServerState.Owns ⟨heap, .zero, [], srv derived⟩ [] := by
    intro derived hreg
    have hnodup : ([0, 1, 2] : List Ptr).Nodup := by decide
    refine ⟨hnodup, fun p => ?_, fun k p hp => ?_, hreg⟩
    · rcases p with _ | _ | _ | p <;> simp [heap, srv, Heap.get?, CELLServer.held,
        SortedMap.values, CELLServer.new]
    · simp only [srv, List.mem_cons, Prod.mk.injEq, List.not_mem_nil, or_false] at hp
      rcases hp with ⟨rfl, rfl⟩ | ⟨rfl, rfl⟩ | ⟨rfl, rfl⟩ <;> exact ⟨_, rfl, rfl⟩
  have ht : ServerState.Twins s e [] := by
    refine ⟨rfl, rfl, howns _ (fun x hx => absurd hx List.not_mem_nil), howns _ (by decide),
      fun d _ hchange => ?_, rfl, rfl, rfl, rfl, by decide, by decide, fun p c hc => ?_⟩
    · exact absurd hchange (by decide)
    · rcases hlive p c hc with ⟨-, rfl⟩ | ⟨-, rfl⟩ | ⟨-, rfl⟩ <;>
        exact ⟨⟨by decide, by decide, by decide, by decide⟩,
          ⟨by decide, by decide, by decide, by decide⟩⟩
  have hr : ServerState.SameReports s e sys sys' := by
    refine ⟨not_false, ⟨evs, rfl⟩, by decide, rfl, rfl, fun k p hp => ?_, fun k p c hp hc => ?_⟩
    · simp only [s, srv, List.mem_cons, Prod.mk.injEq, List.not_mem_nil, or_false] at hp
      rcases hp with ⟨rfl, rfl⟩ | ⟨rfl, rfl⟩ | ⟨rfl, rfl⟩ <;> decide
    · simp only [s, srv, List.mem_cons, Prod.mk.injEq, List.not_mem_nil, or_false] at hp
      rcases hp with ⟨rfl, rfl⟩ | ⟨rfl, rfl⟩ | ⟨rfl, rfl⟩ <;>
        rcases hlive _ c hc with ⟨-, rfl⟩ | ⟨-, rfl⟩ | ⟨-, rfl⟩ <;> decide
  obtain ⟨s', e', hs, he, hget, -, -, hperm⟩ := servers_equivalent ht hr
  exact ⟨s, e, s', e', sys, sys', rfl, hs, he, hget, hperm⟩

end CellNet
