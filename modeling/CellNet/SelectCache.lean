import CellNet.Worker

/-!
# The descriptor cache of the select server

`CELLSelectServer::DoNetEvents` builds its read set anew only if `_clients_change` is set,
and else takes the backup. The map changes in four places of `CELLServer` and its
subclass : the hand-over, `CheckTime`, and the removals in `ReadData` and `WriteData`.
Each of them sets the flag, and `select` overwrites `_fdRead` but not the backup, so the
backup is right whenever the flag is not set (`CacheOwned`). It follows that the arguments
of every `select` are those a set built anew would give : `read_set_real`.
-/

namespace CellNet

namespace ServerState

variable {s s' t : ServerState} {others : List Ptr} {h : Handler} {kind : ServerKind}

/-! ## The invariant -/

/-- The cache only depends on the map, the flag and the members of the subclass. -/
theorem CacheReal.of_eq {d : CELLSelectServer} (hreal : s.CacheReal d)
    (hclients : t.srv.clients = s.srv.clients)
    (hchange : t.srv.clientsChange = s.srv.clientsChange) : t.CacheReal d := by
  intro hfalse
  obtain ⟨hbits, hmax⟩ := hreal (hchange.symm.trans hfalse)
  exact ⟨by rw [hclients]; exact hbits, by rw [hclients]; exact hmax⟩

/-- The members of the subclass are a right cache, up to the end of the thread. -/
structure CacheOwned (s : ServerState) : Prop extends Owned s where
  cache : s.srv.pc ≠ .ended → ∀ d, s.srv.derived = .select d → s.CacheReal d

theorem CacheOwned.init (hinit : (server h kind).init s) : s.CacheOwned := by
  refine ⟨.init hinit, fun _ d _ hchange => ?_⟩
  obtain ⟨-, -, i, oldTime, derived, -, hsrv⟩ := hinit
  simp [hsrv, CELLServer.new] at hchange

/-- A section that shrinks the map leaves the cache right. -/
theorem Shrunk.cacheReal (hshrunk : s.Shrunk t)
    (hcache : ∀ d, s.srv.derived = .select d → s.CacheReal d) {d : CELLSelectServer}
    (hd : t.srv.derived = .select d) : t.CacheReal d := by
  rcases hshrunk.marked with hchange | ⟨hclients, hderived, hchange⟩
  · intro hfalse
    simp [hchange] at hfalse
  · exact (hcache d (hderived.symm.trans hd)).of_eq hclients hchange

/-- `DoNetEvents` starts the cache anew, and the removals in it set the flag. -/
theorem Rounded.cacheReal {sys : SysCalls} (hround : s.Rounded sys t others)
    (hcache : ∀ d, s.srv.derived = .select d → s.CacheReal d) {d : CELLSelectServer}
    (hd : t.srv.derived = .select d) : t.CacheReal d := by
  have hkind : s.srv.kind = .select := by rw [← hround.kind, CELLServer.kind, hd]
  obtain ⟨e, he⟩ := CELLServer.kind_eq_select.mp hkind
  obtain ⟨d', hcached, htour⟩ := hround.select e he (hcache e he)
  refine htour.shrunk.cacheReal (fun d₁ hd₁ _ => ?_) hd
  obtain rfl : d' = d₁ := Derived.select.inj hd₁
  exact ⟨hcached.bits, hcached.maxSock⟩

/-- A section leaves the cache right, up to the end of the thread. -/
theorem Ran.cacheReal {sys : SysCalls} (hran : s.Ran sys others t)
    (hcache : s.srv.pc ≠ .ended → ∀ d, s.srv.derived = .select d → s.CacheReal d)
    (hpc : t.srv.pc ≠ .ended) {d : CELLSelectServer} (hd : t.srv.derived = .select d) :
    t.CacheReal d := by
  cases hran with
  | loop hpc' => exact (hcache (by simp [hpc']) d hd).of_eq rfl rfl
  | handOver hpc' hover =>
    rcases hover.marked with hchange | rfl
    · intro hfalse
      simp [goto, hchange] at hfalse
    · exact (hcache (by simp [hpc']) d hd).of_eq rfl rfl
  | skip hpc' => exact (hcache (by simp [hpc']) d hd).of_eq rfl rfl
  | busy hpc' => exact (hcache (by simp [hpc']) d hd).of_eq rfl rfl
  | checkTime hpc' htour =>
    exact (htour.shrunk.cacheReal (hcache (by simp [hpc'])) hd).of_eq rfl rfl
  | round hpc' hround =>
    exact (hround.cacheReal (hcache (by simp [hpc'])) hd).of_eq rfl rfl
  | stop hpc' hround =>
    exact (hround.cacheReal (hcache (by simp [hpc'])) hd).of_eq rfl rfl
  | doMsg hpc' _ hsrv =>
    refine (hcache (by simp [hpc']) d ?_).of_eq ?_ ?_
    · rw [← hsrv]
      exact hd
    · rw [← hsrv]
      rfl
    · rw [← hsrv]
      rfl
  | clearClients => exact absurd rfl hpc

theorem CacheOwned.step {a : ServerAct} (hs : s.CacheOwned)
    (hstep : (server h kind).step s a (.ok t)) : t.CacheOwned := by
  refine ⟨hs.toOwned.step hstep, fun hpc d hd => ?_⟩
  cases hs.toOwned.stepped hstep with
  | added => exact (hs.cache hpc d hd).of_eq rfl rfl
  | closed => exact (hs.cache hpc d hd).of_eq rfl rfl
  | worked _ _ hran => exact hran.cacheReal hs.cache hpc hd

/-- The servers of a run have a right cache. -/
theorem CacheOwned.run {s₀ : ServerState} {tr : List (ServerState × ServerAct)}
    (hinit : (server h kind).init s₀) (hrun : (server h kind).Run s₀ tr s) : s.CacheOwned :=
  hrun.invariant (fun _ _ _ hs hst => CacheOwned.step hs hst) (.init hinit)

/-! ## The read set -/

/-- The cache is what the map says, and only that. -/
theorem Cached.unique {d d' : CELLSelectServer} (hd : s.Cached d) (hd' : s.Cached d') :
    d.fdReadBak = d'.fdReadBak ∧ d.maxSock = d'.maxSock := by
  refine ⟨?_, Option.some.inj (hd.maxSock.symm.trans hd'.maxSock)⟩
  have hbits := hd.bits.trans hd'.bits.symm
  rcases d with ⟨_, _, ⟨bits⟩, _⟩
  rcases d' with ⟨_, _, ⟨bits'⟩, _⟩
  exact congrArg CELLFDSet.mk hbits

/-- With a right cache, the first part of `DoNetEvents` is defined and gives what it gives
when `_clients_change` is set. -/
theorem readSet_eq (ho : s.Owns others) {d : CELLSelectServer} (hreal : s.CacheReal d)
    (hnonempty : s.srv.clients.entries ≠ []) (hpos : ∀ e ∈ s.srv.clients.entries, 0 ≤ e.1) :
    ∃ d', s.readSet d = .ok (s.resetChange, d') ∧ s.setChange.readSet d = .ok (s.resetChange, d') ∧
      d'.fdRead = d'.fdReadBak ∧ s.Cached d' := by
  obtain ⟨⟨t, d₁⟩, hread, rfl, hbak, hwrite, hcached⟩ := (readSet_sat ho (Or.inr hnonempty)
    (fun e he => Or.inr (hpos e he)) d).exists_ok
  have ho' : s.setChange.Owns others := ⟨ho.nodup, ho.live, ho.keyed, ho.registered⟩
  obtain ⟨⟨u, d₂⟩, hanew, rfl, hbak', hwrite', hcached'⟩ := (readSet_sat ho' (Or.inr hnonempty)
    (fun e he => Or.inr (hpos e he)) d).exists_ok
  have hc : s.Cached d₁ := hcached hreal
  have hc' : s.Cached d₂ := by
    have hc₂ := hcached' fun hfalse => by simp [setChange] at hfalse
    exact ⟨hc₂.bits, hc₂.maxSock⟩
  obtain ⟨hbits, hmax⟩ := hc.unique hc'
  have heq : d₂ = d₁ := by
    rcases d₁ with ⟨r₁, w₁, b₁, m₁⟩
    rcases d₂ with ⟨r₂, w₂, b₂, m₂⟩
    simp only at hbak hbak' hwrite hwrite' hbits hmax
    rw [hbak', hwrite', ← hbits, ← hmax, hbak, hwrite]
  refine ⟨d₁, hread, ?_, hbak, hc⟩
  rw [hanew, heq]
  rfl

end ServerState

/-- The cached descriptor set is the real one. Wherever a run of a select server comes to
`DoNetEvents` with clients, all of them with descriptors the set has positions for, the
read set and `_maxSock` passed to `select` are those built anew : the set has exactly the
descriptors of the clients, and `_maxSock` is the largest of them. -/
theorem read_set_real (h : Handler) {s₀ s : ServerState} {tr : List (ServerState × ServerAct)}
    (hinit : (server h .select).init s₀) (hrun : (server h .select).Run s₀ tr s)
    (hpc : s.srv.pc = .doNetEvents) (hnonempty : s.srv.clients.entries ≠ [])
    (hfd : ∀ e ∈ s.srv.clients.entries, 0 ≤ e.1 ∧ e.1 < CELL_MAX_FD) :
    ∃ d d', s.srv.derived = .select d ∧ s.readSet d = .ok (s.resetChange, d') ∧
      s.setChange.readSet d = .ok (s.resetChange, d') ∧
      (∀ fd, fd ∈ d'.fdRead.bits ↔ ∃ e ∈ s.srv.clients.entries, s.sockfd e.2 = .ok fd) ∧
      (∃ e ∈ s.srv.clients.entries, s.sockfd e.2 = .ok d'.maxSock) ∧
      ∀ e ∈ s.srv.clients.entries, ∀ fd, s.sockfd e.2 = .ok fd → fd ≤ d'.maxSock := by
  have hs := ServerState.CacheOwned.run hinit hrun
  have ho := hs.owns
  have hkind : s.srv.kind = .select := ServerState.Owned.kind_run hinit hrun
  obtain ⟨d, hd⟩ := CELLServer.kind_eq_select.mp hkind
  obtain ⟨d', hread, hanew, hbak, hcached⟩ := ServerState.readSet_eq ho
    (hs.cache (by simp [hpc]) d hd) hnonempty fun e he => (hfd e he).1
  have hmem : ∀ fd, fd ∈ s.srv.clients.keys ↔
      ∃ e ∈ s.srv.clients.entries, s.sockfd e.2 = .ok fd := by
    intro fd
    rw [SortedMap.mem_keys]
    constructor
    · rintro ⟨p, hp⟩
      exact ⟨(fd, p), hp, ho.sockfd hp⟩
    · rintro ⟨e, he, hfd'⟩
      obtain rfl := Except.ok.inj ((ho.sockfd he).symm.trans hfd')
      exact ⟨e.2, he⟩
  refine ⟨d, d', hd, hread, hanew, fun fd => ?_, ?_, fun e he fd hfd' => ?_⟩
  · rw [hbak, hcached.bits, ServerState.mem_readBits, ← hmem]
    refine and_iff_left_of_imp fun hkey => ?_
    obtain ⟨p, hp⟩ := SortedMap.mem_keys.mp hkey
    exact (hfd _ hp).2
  · exact (hmem _).mp (List.mem_of_getLast? hcached.maxSock)
  · exact SortedMap.le_getLast ((hmem fd).mpr ⟨e, he, hfd'⟩) hcached.maxSock

/-- Two clients in the second round, whose read set comes from the cache. -/
theorem read_set_real_cached : ∃ s₀ tr s d d', (server .ignore .select).init s₀ ∧
    (server .ignore .select).Run s₀ tr s ∧
    (s.srv.clientsChange, s.srv.clients.entries) = (false, [(3, 1), (4, 0)]) ∧
    s.readSet d = .ok (s.resetChange, d') ∧
    ∀ fd, fd ∈ d'.fdRead.bits ↔ ∃ e ∈ s.srv.clients.entries, s.sockfd e.2 = .ok fd := by
  let sys : SysCalls := ⟨0, fun _ => true, .ready [] [], .events [], fun _ => .fail,
    fun _ => .accept 0⟩
  let acts : List ServerAct := [.addClient (.new 4 64 64 (fun _ => 0) fun _ => 0),
    .addClient (.new 3 64 64 (fun _ => 0) fun _ => 0)] ++ List.replicate 10 (.work sys)
  let next? := Machine.next? ServerState.Kernel (ServerState.act .ignore) 1
  have heval : (acts.foldlM next? .newSelect).map (fun s =>
      (s.srv.pc, s.srv.clientsChange, s.srv.clients.entries)) =
        some (.doNetEvents, false, [(3, 1), (4, 0)]) := by
    decide +kernel
  obtain ⟨tr, s, hrun, -, hstate⟩ := Machine.Run.of_next?_map (server .ignore .select).init heval
  simp only [Prod.mk.injEq] at hstate
  obtain ⟨hpc, hchange, hentries⟩ := hstate
  have hinit := ServerState.newSelect_init .ignore
  obtain ⟨d, d', -, hread, -, hbits, -⟩ := read_set_real .ignore hinit hrun hpc
    (by rw [hentries]; simp) (by rw [hentries]; decide)
  exact ⟨_, tr, s, d, d', hinit, hrun, by rw [hchange, hentries], hread, hbits⟩

end CellNet
