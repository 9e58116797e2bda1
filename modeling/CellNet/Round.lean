import CellNet.Visits

/-!
# One round of DoNetEvents

What `DoNetEvents` of either subclass does to the clients. A client that is `Readable` is
read, and then, if it is still there and `Writable`, it is written : that is `netEffect`,
and a call is a sweep of it over the clients (`selectNetEvents_toured`,
`epollNetEvents_toured`). The select server makes two loops over the map for it and the
epoll server one over the events.

The select server keeps the descriptors in a cache. `Cached` says that the cache is what
building it anew gives, and the read set is then right (`readSet_sat`). What may be
undefined in a call is collected in `Defined`.
-/

namespace CellNet

/-! ## What the calls report -/

/-- The descriptors `select` reports as readable. -/
def SelectResult.readable : SelectResult → List SOCKET
  | fail _ => []
  | ready rs _ => rs

/-- The descriptors `select` reports as writable. -/
def SelectResult.writable : SelectResult → List SOCKET
  | fail _ => []
  | ready _ ws => ws

/-- The call fails. -/
def SelectResult.Fails : SelectResult → Prop
  | fail _ => True
  | ready _ _ => False

/-- What `select` makes of the sets it was given. -/
structure Selected (fdRead fdWrite : CELLFDSet) (r : SelectResult)
    (x : ℤ × CELLFDSet × CELLFDSet) : Prop where
  fails : x.1 < 0 ↔ r.Fails
  read : ¬r.Fails → ∀ fd, fd ∈ x.2.1.bits ↔ fd ∈ fdRead.bits ∧ fd ∈ r.readable
  write : ¬r.Fails → ∀ fd, fd ∈ x.2.2.bits ↔ fd ∈ fdWrite.bits ∧ fd ∈ r.writable
  timeout : x.1 = 0 → x.2.1.bits = [] ∧ x.2.2.bits = []

theorem select_sat {E : UB → Prop} {nfds : ℤ} {fdRead fdWrite : CELLFDSet} {bNeedWrite : Bool}
    (hnfds : E .outOfBounds ∨ nfds ≤ CELL_MAX_FD) (hw : bNeedWrite = false → fdWrite.bits = [])
    (r : SelectResult) : Exec.Sat E (select nfds fdRead fdWrite bNeedWrite r) fun x =>
      nfds ≤ CELL_MAX_FD ∧ Selected fdRead fdWrite r x := by
  unfold select
  split
  · exact hnfds.resolve_right (not_le.mpr ‹_›)
  refine Exec.Sat.mono (Q := Selected fdRead fdWrite r) ?_ fun x hx => ⟨not_lt.mp ‹_›, hx⟩
  cases r with
  | fail eintr => exact ⟨by simp [SelectResult.Fails], by simp [SelectResult.Fails],
      by simp [SelectResult.Fails], by simp⟩
  | ready rs ws =>
    dsimp only
    split
    · refine ⟨by simp [SelectResult.Fails]; omega, fun _ fd => ?_, fun _ fd => ?_, fun h0 => ?_⟩
      · simp [SelectResult.readable]
      · simp [SelectResult.writable]
      · obtain ⟨hrs, hws⟩ := Nat.add_eq_zero_iff.mp (Nat.cast_eq_zero.mp h0)
        exact ⟨List.length_eq_zero_iff.mp hrs, List.length_eq_zero_iff.mp hws⟩
    · have hnil := hw (by simp_all)
      refine ⟨by simp [SelectResult.Fails], fun _ fd => ?_, fun _ fd => ?_, fun h0 => ?_⟩
      · simp [SelectResult.readable]
      · simp [SelectResult.writable, hnil]
      · exact ⟨List.length_eq_zero_iff.mp (Nat.cast_eq_zero.mp h0), hnil⟩

/-! ## The read set -/

namespace ServerState

variable {E : UB → Prop} {s s' t : ServerState} {others : List Ptr} {p : Ptr} {k : SOCKET}
  {c : CELLClient}

/-- The read set of a map. A descriptor that is no position of the set is left out. -/
def readBits (clients : SortedMap SOCKET Ptr) : List SOCKET :=
  (clients.keys.filter fun fd => decide (fd < CELL_MAX_FD)).reverse

/-- The backup and `_maxSock` are those of the map. -/
structure Cached (s : ServerState) (d : CELLSelectServer) : Prop where
  bits : d.fdReadBak.bits = readBits s.srv.clients
  maxSock : s.srv.clients.keys.getLast? = some d.maxSock

/-- The cache is right, unless `_clients_change` is set. -/
def CacheReal (s : ServerState) (d : CELLSelectServer) : Prop :=
  s.srv.clientsChange = false → s.Cached d

/-- The server once `_clients_change` is reset. -/
def resetChange (s : ServerState) : ServerState :=
  { s with srv := { s.srv with clientsChange := false } }

theorem resetChange_eq (h : s.srv.clientsChange = false) : s.resetChange = s := by
  rw [resetChange, ← h]

theorem add_sat {set : CELLFDSet} {fd : SOCKET} (h : E .outOfBounds ∨ 0 ≤ fd) :
    Exec.Sat E (set.add fd) fun set' =>
      set'.bits = if fd < CELL_MAX_FD then set.bits.insert fd else set.bits := by
  unfold CELLFDSet.add
  split
  · split
    · rfl
    · exact h.resolve_right ‹_›
  · rfl

/-- The loop adds the descriptors to the set, and the last one is the largest. -/
theorem addRead_sat {es : List (SOCKET × Ptr)} (hfd : ∀ e ∈ es, s.sockfd e.2 = .ok e.1)
    (hpos : ∀ e ∈ es, E .outOfBounds ∨ 0 ≤ e.1)
    (hsorted : es.Pairwise fun e e' => e.1 < e'.1) {acc : CELLFDSet × SOCKET}
    (hnew : ∀ e ∈ es, e.1 ∉ acc.1.bits) (hle : ∀ e ∈ es, acc.2 ≤ e.1) :
    Exec.Sat E (es.foldlM s.addRead acc) fun r =>
      r.1.bits = ((es.map Prod.fst).filter fun fd => decide (fd < CELL_MAX_FD)).reverse ++
        acc.1.bits ∧
      r.2 = (es.map Prod.fst).getLast?.getD acc.2 := by
  induction es generalizing acc with
  | nil => exact ⟨rfl, rfl⟩
  | cons e es ih =>
    obtain ⟨hlt, hsorted'⟩ := List.pairwise_cons.mp hsorted
    have hmax : (if acc.2 < e.1 then e.1 else acc.2) = e.1 := by
      split
      · rfl
      · exact le_antisymm (hle e List.mem_cons_self) (not_lt.mp ‹_›)
    rw [List.foldlM_cons, addRead, hfd e List.mem_cons_self, Fallible.ok_bind]
    refine Exec.Sat.bind (Q := fun a => a.2 = e.1 ∧ a.1.bits =
      if e.1 < CELL_MAX_FD then e.1 :: acc.1.bits else acc.1.bits) ?_ fun a ha => ?_
    · refine (add_sat (hpos e List.mem_cons_self)).bind fun set hset => ⟨hmax, ?_⟩
      rw [hset, List.insert_of_not_mem (hnew e List.mem_cons_self)]
    obtain ⟨hmaxSock, hbits⟩ := ha
    refine (ih (fun e' he => hfd e' (List.mem_cons_of_mem _ he))
      (fun e' he => hpos e' (List.mem_cons_of_mem _ he)) hsorted' (fun e' he hmem => ?_)
      fun e' he => ?_).mono fun r hr => ?_
    · rw [hbits] at hmem
      have hne := ne_of_gt (hlt e' he)
      have hnot := hnew e' (List.mem_cons_of_mem _ he)
      split at hmem
      · exact (List.mem_cons.mp hmem).elim hne hnot
      · exact hnot hmem
    · rw [hmaxSock]
      exact (hlt e' he).le
    · rw [List.map_cons, List.filter_cons, List.getLast?_cons, Option.getD_some, hr.1, hr.2,
        hbits, hmaxSock]
      refine ⟨?_, rfl⟩
      by_cases hmax : e.1 < CELL_MAX_FD <;> simp [hmax]

/-- An entry is found under the descriptor of its client. -/
theorem Owns.sockfd (h : s.Owns others) {e : SOCKET × Ptr} (he : e ∈ s.srv.clients.entries) :
    s.sockfd e.2 = .ok e.1 := by
  obtain ⟨c, hc, hk⟩ := h.keyed e.1 e.2 he
  rw [sockfd_eq hc, hk]

/-- The read set and `_maxSock` after the first part of `DoNetEvents`. Built anew they are
those of the map; else they are what the cache says. -/
theorem readSet_sat (h : s.Owns others) (hnonempty : E .derefEnd ∨ s.srv.clients.entries ≠ [])
    (hpos : ∀ e ∈ s.srv.clients.entries, E .outOfBounds ∨ 0 ≤ e.1) (d : CELLSelectServer) :
    Exec.Sat E (s.readSet d) fun x => x.1 = s.resetChange ∧ x.2.fdRead = x.2.fdReadBak ∧
      x.2.fdWrite = d.fdWrite ∧ (s.CacheReal d → s.Cached x.2) := by
  unfold readSet
  split
  swap
  · have hchange : s.srv.clientsChange = false := by simpa using ‹¬s.srv.clientsChange = true›
    refine ⟨(resetChange_eq hchange).symm, rfl, rfl, fun hreal => ?_⟩
    exact ⟨(hreal hchange).bits, (hreal hchange).maxSock⟩
  rw [show ({ s with srv := { s.srv with clientsChange := false } } : ServerState) =
    s.resetChange from rfl]
  dsimp only
  cases hes : s.resetChange.srv.clients.entries with
  | nil => exact hnonempty.resolve_right fun hne => hne hes
  | cons e es =>
    have hes' : s.srv.clients.entries = e :: es := hes
    have hfd : ∀ e' ∈ e :: es, s.resetChange.sockfd e'.2 = .ok e'.1 :=
      fun e' he => h.sockfd (hes ▸ he : e' ∈ s.resetChange.srv.clients.entries)
    have hsorted : (e :: es).Pairwise fun e e' => e.1 < e'.1 := hes ▸ s.srv.clients.sorted
    have hle : ∀ e' ∈ e :: es, e.1 ≤ e'.1 := by
      intro e' he
      rcases List.mem_cons.mp he with rfl | he
      · exact le_refl _
      · exact ((List.pairwise_cons.mp hsorted).1 e' he).le
    dsimp only
    rw [hfd e List.mem_cons_self, Fallible.ok_bind]
    refine (addRead_sat (s := s.resetChange) hfd (fun e' he => hpos e' (hes ▸ he)) hsorted
      (fun _ _ => List.not_mem_nil) hle).bind fun r hr => ⟨rfl, rfl, rfl, fun _ => ⟨?_, ?_⟩⟩
    · rw [readBits, SortedMap.keys, hes']
      exact hr.1.trans (List.append_nil _)
    · rw [SortedMap.keys, hes', List.map_cons, List.getLast?_cons]
      have hlast := hr.2
      rw [List.map_cons, List.getLast?_cons, Option.getD_some] at hlast
      exact congrArg some hlast.symm

theorem mem_readBits {clients : SortedMap SOCKET Ptr} {fd : SOCKET} :
    fd ∈ readBits clients ↔ fd ∈ clients.keys ∧ fd < CELL_MAX_FD := by
  simp [readBits]

/-! ## The write set -/

/-- The loop adds the descriptors of the clients that have something to send. -/
theorem addWrite_sat (h : s.Owns others) {es : List (SOCKET × Ptr)}
    (hes : ∀ e ∈ es, e ∈ s.srv.clients.entries)
    (hpos : ∀ e ∈ s.srv.clients.entries, E .outOfBounds ∨ 0 ≤ e.1) (acc : Bool × CELLFDSet)
    (hacc : acc.1 = false → acc.2.bits = []) :
    Exec.Sat E (es.foldlM s.addWrite acc) fun r => (r.1 = false → r.2.bits = []) ∧
      ∀ fd, fd ∈ r.2.bits ↔ fd ∈ acc.2.bits ∨ fd < CELL_MAX_FD ∧
        ∃ p c, (fd, p) ∈ es ∧ s.heap.get? p = some c ∧ c.needWrite = true := by
  induction es generalizing acc with
  | nil => exact ⟨hacc, by simp⟩
  | cons e es ih =>
    obtain ⟨c, hc, hk⟩ := h.keyed e.1 e.2 (hes e List.mem_cons_self)
    have hes' : ∀ e' ∈ es, e' ∈ s.srv.clients.entries :=
      fun e' he => hes e' (List.mem_cons_of_mem _ he)
    rw [List.foldlM_cons, addWrite, Heap.deref_eq hc, Fallible.ok_bind]
    split
    · rename_i hneed
      have hadd : Exec.Sat E (acc.2.add c.sockfd >>= fun set => pure (true, set))
          fun a => a.1 = true ∧ ∀ fd, fd ∈ a.2.bits ↔
            fd ∈ acc.2.bits ∨ fd < CELL_MAX_FD ∧ fd = e.1 := by
        have hpos' := hk.symm ▸ hpos e (hes e List.mem_cons_self)
        refine (add_sat hpos').bind fun set hset => ⟨rfl, fun fd => ?_⟩
        rw [hset, hk]
        split <;> simp <;> grind
      refine hadd.bind fun a ha => ?_
      obtain ⟨htrue, hbits⟩ := ha
      refine (ih hes' a fun hfalse => by simp [htrue] at hfalse).mono fun r hr =>
        ⟨hr.1, fun fd => ?_⟩
      rw [hr.2, hbits]
      constructor
      · rintro ((hmem | ⟨hlt, rfl⟩) | ⟨hlt, p, d, hp, hd⟩)
        · exact Or.inl hmem
        · exact Or.inr ⟨hlt, e.2, c, List.mem_cons_self, hc, hneed⟩
        · exact Or.inr ⟨hlt, p, d, List.mem_cons_of_mem _ hp, hd⟩
      · rintro (hmem | ⟨hlt, p, d, hp, hd⟩)
        · exact Or.inl (Or.inl hmem)
        · rcases List.mem_cons.mp hp with rfl | hp
          · exact Or.inl (Or.inr ⟨hlt, rfl⟩)
          · exact Or.inr ⟨hlt, p, d, hp, hd⟩
    · rename_i hneed
      refine (ih hes' acc hacc).mono fun r hr => ⟨hr.1, fun fd => ?_⟩
      rw [hr.2]
      refine or_congr_right (and_congr_right fun _ => ?_)
      constructor
      · rintro ⟨p, d, hp, hd⟩
        exact ⟨p, d, List.mem_cons_of_mem _ hp, hd⟩
      · rintro ⟨p, d, hp, hd, hneed'⟩
        rcases List.mem_cons.mp hp with rfl | hp
        · rw [hc, Option.some.injEq] at hd
          exact absurd (hd ▸ hneed') hneed
        · exact ⟨p, d, hp, hd, hneed'⟩

/-! ## The effect of a round -/

/-- The client `c` at `p` is reported as readable. -/
def Readable (s : ServerState) (sys : SysCalls) (p : Ptr) (c : CELLClient) : Prop :=
  match s.srv.kind with
  | .select => c.sockfd ∈ sys.select.readable
  | .epoll => ∃ ev ∈ sys.wait.wait.2, ev.ptr = some p ∧ ev.epollin = true

/-- The client `c` at `p` is reported as writable, which a select server asks of clients
with something to send only. -/
def Writable (s : ServerState) (sys : SysCalls) (p : Ptr) (c : CELLClient) : Prop :=
  match s.srv.kind with
  | .select => c.needWrite = true ∧ c.sockfd ∈ sys.select.writable
  | .epoll => ∃ ev ∈ sys.wait.wait.2, ev.ptr = some p ∧ ev.epollout = true

/-- What `DoNetEvents` does to a client : it is read, and then written. -/
def netEffect (s : ServerState) (sys : SysCalls) : Effect Ptr CELLClient NetEvent :=
  Effect.andThen (fun p c => ReadEffect (s.Readable sys p c) (sys.recv p) p c)
    fun p c => WriteEffect (s.Writable sys p c) (sys.send p) p c

theorem netEffect_congr (h : t.srv.kind = s.srv.kind) (sys : SysCalls) :
    t.netEffect sys = s.netEffect sys := by
  unfold netEffect Readable Writable
  rw [h]

/-- A read and a write of the client `p`, for the clients that are reported. -/
theorem netEffect_of {sys : SysCalls} {A B : Ptr → CELLClient → Prop}
    (hread : A p c ↔ s.Readable sys p c)
    (hwrite : ∀ b, B p { c with recvBuff := b } ↔ s.Writable sys p { c with recvBuff := b })
    {o : Option CELLClient} {es : List NetEvent}
    (h : Effect.andThen (fun p c => ReadEffect (A p c) (sys.recv p) p c)
      (fun p c => WriteEffect (B p c) (sys.send p) p c) p c o es) : s.netEffect sys p c o es := by
  obtain ⟨o', es', hr, hv⟩ := h
  refine ⟨o', es', hr.congr hread, hv.mono fun c' o es hc' hw => ?_⟩
  obtain rfl : o' = some c' := hc'
  obtain ⟨b, rfl⟩ := hr.recvBuff_only
  exact hw.congr (hwrite b)

/-- A client that is not reported is left alone. -/
theorem netEffect_idle {sys : SysCalls} (hread : ¬s.Readable sys p c)
    (hwrite : ¬s.Writable sys p c) : s.netEffect sys p c (some c) [] :=
  ⟨some c, [], .idle hread, .present (.idle hwrite)⟩

/-- Nothing in a call of `DoNetEvents` is undefined in a way `E` does not allow. -/
structure Defined (E : UB → Prop) (s : ServerState) (sys : SysCalls) : Prop where
  nonempty : E .derefEnd ∨ s.srv.clients.entries ≠ []
  fd : E .outOfBounds ∨ ∀ e ∈ s.srv.clients.entries, 0 ≤ e.1 ∧ e.1 < CELL_MAX_FD
  recv : ∀ p c, s.heap.get? p = some c →
    Exec.Sat E (c.recvData (sys.recv p)) fun _ => True
  send : ∀ p c, s.heap.get? p = some c → ∀ b,
    Exec.Sat E (({ c with recvBuff := b } : CELLClient).sendDataReal (sys.send p)) fun _ => True

theorem Defined.of_allowed (hE : E .outOfBounds) (hD : E .derefEnd) (s : ServerState)
    (sys : SysCalls) : s.Defined E sys where
  nonempty := Or.inl hD
  fd := Or.inl hE
  recv _ c _ := (CELLClient.recvData_sat hE c _).mono fun _ _ => trivial
  send _ _ _ _ := (CELLClient.sendDataReal_sat hE _ _).mono fun _ _ => trivial

variable {sys : SysCalls}

/-! ## The select server -/

/-- The server with the members `d`, once `_clients_change` is reset. -/
def selected (s : ServerState) (d : CELLSelectServer) : ServerState :=
  s.resetChange.setDerived (.select d)

theorem Owns.selected (h : s.Owns others) (hkind : s.srv.kind = .select) (d : CELLSelectServer) :
    s.Kept (s.selected d) others :=
  .of_eq h rfl rfl rfl rfl hkind.symm fun _ hx => absurd hx List.not_mem_nil

/-- `has` is defined for the clients of the map. -/
theorem Defined.has (hD : s.Defined E sys) {e : SOCKET × Ptr} (he : e ∈ s.srv.clients.entries)
    (set : CELLFDSet) : Exec.Sat E (set.has e.1) fun _ => True := by
  unfold CELLFDSet.has
  split
  · trivial
  · rename_i hfd
    exact hD.fd.resolve_right fun hall => hfd (hall e he)

/-- `ReadData` and then `WriteData`. A client that its read removed is not in the map any
more. -/
theorem readWriteData_toured (h : s.Owns others) (hD : s.Defined E sys)
    (fdRead fdWrite : CELLFDSet) :
    Exec.Sat E (s.readData sys fdRead >>= fun s => s.writeData sys fdWrite) fun s' =>
      s.Toured (Effect.andThen
        (fun p c => ReadEffect (c.sockfd ∈ fdRead.bits) (sys.recv p) p c)
        fun p c => WriteEffect (c.needWrite = true ∧ c.sockfd ∈ fdWrite.bits) (sys.send p) p c)
        s' others s.srv.clients.values := by
  have hread := sweep_clients (readClient sys fdRead) h
    fun t k p c ht hp hpt hc hct =>
      readClient_visited sys fdRead ht hpt hct (hD.has hp fdRead) (hD.recv p c hc)
  refine hread.bind fun t hr => ?_
  have hwrite := sweep_clients (writeClient sys fdWrite) hr.owns
    fun u k p c hu hp hpu hc hcu => by
      have hps := hr.shrunk.sub _ hp
      obtain ⟨c₀, hc₀⟩ := h.get? (CELLServer.mem_held_of_entry hps)
      have hv := hr.swept.visit p (List.mem_map.mpr ⟨(k, p), hps, rfl⟩)
      rw [table_eq hc₀, table_eq hc] at hv
      generalize (t.events.filter fun e => e.pClient = p) = es at hv
      obtain ⟨b, rfl⟩ : ∃ b, c = { c₀ with recvBuff := b } := by
        cases hv with
        | present hR => exact hR.recvBuff_only
      exact writeClient_visited sys fdWrite hu hpu hcu (hD.has hps fdWrite) (hD.send p c₀ hc₀ b)
  refine hwrite.mono fun u hw => hr.trans (hw.widen (fun p hp => ?_) fun p hp hnot c hc => ?_)
  · obtain ⟨e, he, rfl⟩ := List.mem_map.mp hp
    exact List.mem_map.mpr ⟨e, hr.shrunk.sub e he, rfl⟩
  · rw [hr.get?_eq_none h hp hnot] at hc
    simp at hc

/-- The clients `select` reports are those left in its sets, if the cache is right. -/
theorem selected_effect (h : s.Owns others) (hkind : s.srv.kind = .select)
    {d : CELLSelectServer} {fdWrite : CELLFDSet} {x : ℤ × CELLFDSet × CELLFDSet}
    (hcached : s.Cached d) (hbak : d.fdRead = d.fdReadBak)
    (hwrite : ∀ fd, fd ∈ fdWrite.bits ↔ fd < CELL_MAX_FD ∧
      ∃ p c, (fd, p) ∈ s.srv.clients.entries ∧ s.heap.get? p = some c ∧ c.needWrite = true)
    (hnfds : d.maxSock + 1 ≤ CELL_MAX_FD) (hsel : Selected d.fdRead fdWrite sys.select x)
    (hfails : ¬sys.select.Fails) (hp : p ∈ s.srv.clients.values) (hc : s.heap.get? p = some c) :
    (c.sockfd ∈ x.2.1.bits ↔ s.Readable sys p c) ∧
      ∀ b, (({ c with recvBuff := b } : CELLClient).needWrite = true ∧ c.sockfd ∈ x.2.2.bits ↔
        s.Writable sys p { c with recvBuff := b }) := by
  obtain ⟨⟨k, _⟩, hmem, rfl⟩ := List.mem_map.mp hp
  obtain rfl := h.key_eq hmem hc
  have hkey : c.sockfd ∈ s.srv.clients.keys := SortedMap.mem_keys.mpr ⟨_, hmem⟩
  have hlt : c.sockfd < CELL_MAX_FD :=
    Int.lt_of_add_one_le ((Int.add_le_add_right (SortedMap.le_getLast hkey hcached.maxSock)
      1).trans hnfds)
  unfold Readable Writable
  rw [hkind, hsel.read hfails, hsel.write hfails, hbak, hcached.bits, mem_readBits, hwrite]
  refine ⟨and_iff_right ⟨hkey, hlt⟩, fun b => and_congr_right fun hneed => and_iff_right ?_⟩
  exact ⟨hlt, _, c, hmem, hc, hneed⟩

theorem selectNetEvents_toured (h : s.Owns others) {d : CELLSelectServer}
    (hd : s.srv.derived = .select d) (hD : s.Defined E sys)
    (hcache : E .outOfBounds ∨ s.CacheReal d) :
    Exec.Sat E (s.selectNetEvents sys d) fun x =>
      (x.1 = false ↔ sys.select = .fail false) ∧ ∃ d', s.Kept x.2 others ∧
        (s.CacheReal d → s.Cached d' ∧
          (s.selected d').Toured (s.netEffect sys) x.2 others s.srv.clients.values) := by
  have hkind : s.srv.kind = .select := by rw [CELLServer.kind, hd]
  have hpos : ∀ e ∈ s.srv.clients.entries, E .outOfBounds ∨ 0 ≤ e.1 :=
    fun e he => hD.fd.imp_right fun hall => (hall e he).1
  refine (readSet_sat h hD.nonempty hpos d).bind ?_
  rintro ⟨_, d₁⟩ ⟨rfl, hbak, -, hcached⟩
  dsimp only at hbak hcached ⊢
  have ho : s.resetChange.Owns others := ⟨h.nodup, h.live, h.keyed, h.registered⟩
  refine (addWrite_sat ho (fun _ he => he) hpos (false, .zero) fun _ => rfl).bind ?_
  rintro ⟨bNeedWrite, fdWrite⟩ ⟨hnil, hwrite⟩
  dsimp only at hnil hwrite ⊢
  have hnfds : E .outOfBounds ∨ d₁.maxSock + 1 ≤ CELL_MAX_FD := by
    by_cases hE : E .outOfBounds
    · exact Or.inl hE
    · have hmax := (hcached (hcache.resolve_left hE)).maxSock
      obtain ⟨p, hp⟩ := SortedMap.mem_keys.mp (List.mem_of_getLast? hmax)
      exact Or.inr (Int.add_one_le_of_lt (hD.fd.resolve_left hE _ hp).2)
  refine (select_sat hnfds hnil sys.select).bind ?_
  rintro ⟨ret, fdRead, fdWrite'⟩ ⟨hle, hsel⟩
  have hwrite' := fun fd => (hwrite fd).trans (or_iff_right List.not_mem_nil)
  have heffect (hreal : s.CacheReal d) (hfails : ¬sys.select.Fails) {p : Ptr} {c : CELLClient}
      (hp : p ∈ s.srv.clients.values) (hc : s.heap.get? p = some c) :=
    selected_effect h hkind (hcached hreal) hbak hwrite' hle hsel hfails hp hc
  let d' : CELLSelectServer := { d₁ with fdRead, fdWrite := fdWrite' }
  have hk := h.selected hkind d'
  have hcached' : s.CacheReal d → s.Cached d' :=
    fun hreal => ⟨(hcached hreal).bits, (hcached hreal).maxSock⟩
  dsimp only
  split
  · -- the call fails
    have hfails := hsel.fails.mp ‹ret < 0›
    refine ⟨?_, d', hk, fun hreal => ⟨hcached' hreal, .idle hk.owns fun p hp c hc => ?_⟩⟩
    · cases hs : sys.select <;> simp_all [SelectResult.eintr, SelectResult.Fails]
    · refine netEffect_idle ?_ ?_ <;> cases hs : sys.select <;>
        simp_all [Readable, Writable, SelectResult.Fails, SelectResult.readable,
          SelectResult.writable]
  rename_i hnonneg
  have hfails : ¬sys.select.Fails := fun hf => hnonneg (hsel.fails.mpr hf)
  have htrue : (true = false ↔ sys.select = .fail false) := by
    cases hs : sys.select <;> simp_all [SelectResult.Fails]
  split
  · -- nothing is ready
    obtain ⟨hr, hw⟩ := hsel.timeout ‹ret = 0›
    dsimp only at hr hw
    refine ⟨htrue, d', hk, fun hreal => ⟨hcached' hreal, .idle hk.owns fun p hp c hc => ?_⟩⟩
    obtain ⟨hread, hwrt⟩ := heffect hreal hfails hp hc
    refine netEffect_idle (fun hready => ?_) fun hready => ?_
    · simpa [hr] using hread.mpr hready
    · simpa [hw] using (hwrt c.recvBuff).mpr hready
  · have hD' : (s.selected d').Defined E sys := ⟨hD.nonempty, hD.fd, hD.recv, hD.send⟩
    have hrun := readWriteData_toured hk.owns hD' fdRead fdWrite'
    rw [← bind_assoc]
    refine hrun.bind fun u hu => ⟨htrue, d', hk.trans hu.toKept, fun hreal => ?_⟩
    refine ⟨hcached' hreal, hu.mono fun p hp c o es hc hAB => ?_⟩
    obtain ⟨hread, hwrt⟩ := heffect hreal hfails hp hc
    exact netEffect_of hread hwrt hAB

/-! ## The epoll server -/

/-- The events `epoll_wait` reports are of clients in the map, each of another one. -/
theorem events_toured (h : s.Owns others) (hkind : s.srv.kind = .epoll) (hD : s.Defined E sys)
    (hnodup : (sys.wait.wait.2.map EpollEvent.ptr).Nodup)
    (hmem : ∀ ev ∈ sys.wait.wait.2, ∃ k p, ev.ptr = some p ∧ (k, p) ∈ s.srv.clients.entries) :
    Exec.Sat E (sys.wait.wait.2.foldlM (onEvent sys) s) fun s' =>
      s.Toured (s.netEffect sys) s' others s.srv.clients.values := by
  generalize hevs : sys.wait.wait.2 = evs at hnodup hmem
  -- the entry an event is about
  have htarget : ∃ target : EpollEvent → SOCKET × Ptr, ∀ ev ∈ evs,
      ev.ptr = some (target ev).2 ∧ target ev ∈ s.srv.clients.entries := by
    classical
    have hmem' : ∀ ev, ∃ e : SOCKET × Ptr, ev ∈ evs →
        ev.ptr = some e.2 ∧ e ∈ s.srv.clients.entries := by
      intro ev
      by_cases hev : ev ∈ evs
      · obtain ⟨k, p, hptr, hp⟩ := hmem ev hev
        exact ⟨(k, p), fun _ => ⟨hptr, hp⟩⟩
      · exact ⟨(0, 0), fun hev' => absurd hev' hev⟩
    exact Classical.skolem.mp hmem'
  obtain ⟨target, htarget⟩ := htarget
  have hptrs : evs.map EpollEvent.ptr = (evs.map fun ev => (target ev).2).map some := by
    rw [List.map_map]
    exact List.map_congr_left fun ev hev => (htarget ev hev).1
  have hone : ∀ ev ∈ evs, ∀ ev' ∈ evs, ev'.ptr = some (target ev).2 → ev' = ev := by
    intro ev hev ev' hev' hptr
    exact List.inj_on_of_nodup_map hnodup hev' hev (hptr.trans (htarget ev hev).1.symm)
  rw [hptrs] at hnodup
  refine (sweep (R := s.netEffect sys) target h (fun t ev hev ht hmemt htable => ?_)
    (fun ev hev => (htarget ev hev).2) hnodup.of_map).mono fun s' hs' => hs'.widen ?_ ?_
  · obtain ⟨c, hc⟩ := h.get? (CELLServer.mem_held_of_entry (htarget ev hev).2)
    have hct : t.heap.get? (target ev).2 = some c := (congrArg Prod.fst htable).trans hc
    have hiff : ∀ f : EpollEvent → Bool, f ev = true ↔
        ∃ ev' ∈ sys.wait.wait.2, ev'.ptr = some (target ev).2 ∧ f ev' = true := by
      intro f
      rw [hevs]
      constructor
      · exact fun hf => ⟨ev, hev, (htarget ev hev).1, hf⟩
      · rintro ⟨ev', hev', hptr, hf⟩
        rwa [← hone ev hev ev' hev' hptr]
    refine (onEvent_visited sys (htarget ev hev).1 ht hmemt hct (hD.recv _ c hc)
      (hD.send _ c hc)).mono fun t' hv => hv.mono fun c' o es hc' hR => ?_
    refine netEffect_of ?_ (fun b => ?_) hR
    · unfold Readable
      rw [hkind]
      exact hiff EpollEvent.epollin
    · unfold Writable
      rw [hkind]
      exact hiff EpollEvent.epollout
  · intro p hp
    obtain ⟨ev, hev, rfl⟩ := List.mem_map.mp hp
    exact List.mem_map.mpr ⟨_, (htarget ev hev).2, rfl⟩
  · intro p _ hnot c _
    have hnone : ∀ ev ∈ evs, ev.ptr ≠ some p := by
      intro ev hev hptr
      rw [(htarget ev hev).1, Option.some.injEq] at hptr
      exact hnot (List.mem_map.mpr ⟨ev, hev, hptr⟩)
    refine netEffect_idle ?_ ?_
    · unfold Readable
      rw [hkind, hevs]
      rintro ⟨ev, hev, hptr, -⟩
      exact hnone ev hev hptr
    · unfold Writable
      rw [hkind, hevs]
      rintro ⟨ev, hev, hptr, -⟩
      exact hnone ev hev hptr

theorem epollNetEvents_toured (h : s.Owns others) {d : CELLEpollServer}
    (hd : s.srv.derived = .epoll d) (hwait : d.ep.Reports sys.wait) (hD : s.Defined E sys) :
    Exec.Sat E (s.epollNetEvents sys d) fun x =>
      (x.1 = false ↔ sys.wait = .fail false) ∧ ∃ d', s.Kept x.2 others ∧
        (s.setDerived (.epoll d')).Owns others ∧
        (s.setDerived (.epoll d')).Toured (s.netEffect sys) x.2 others
          s.srv.clients.values := by
  have hkind : s.srv.kind = .epoll := by rw [CELLServer.kind, hd]
  have hreg : ∀ x ∈ d.ep.registered, (x.1, x.2.ptr) ∈ s.srv.clients.entries := by
    have := h.registered
    rwa [CELLServer.registered, hd] at this
  refine Exec.Sat.bind (Q := fun ep : CELLEpoll => ∀ x ∈ ep.registered,
    (x.1, x.2.ptr) ∈ s.srv.clients.entries) ?_ fun ep hep => ?_
  · refine look_sat h (fun ep k p c hep hp hc => ?_) _ hreg
    obtain rfl := h.key_eq hp hc
    rw [modClient, Heap.deref_eq hc, Fallible.ok_bind]
    intro x hx
    simp only [CELLEpoll.ctl] at hx
    split at hx
    · obtain ⟨y, hy, rfl⟩ := List.mem_map.mp hx
      split
      · exact hp
      · exact hep y hy
    · exact hep x hx
  have hk : s.Kept (s.setDerived (.epoll ⟨ep⟩)) others :=
    .of_eq h rfl rfl rfl rfl hkind.symm hep
  have hD' : (s.setDerived (.epoll ⟨ep⟩)).Defined E sys :=
    ⟨hD.nonempty, hD.fd, hD.recv, hD.send⟩
  have hwaits : (sys.wait.wait.2.map EpollEvent.ptr).Nodup ∧ ∀ ev ∈ sys.wait.wait.2,
      ∃ e ∈ d.ep.registered, ev.ptr = some e.2.ptr := by
    cases hw : sys.wait with
    | fail eintr => cases eintr <;> simp [EpollResult.wait]
    | events evs => rwa [hw] at hwait
  dsimp only
  split
  · -- the call fails
    rename_i hneg
    refine ⟨?_, ⟨ep⟩, hk, hk.owns, .idle hk.owns fun p _ c _ => ?_⟩
    · cases hw : sys.wait with
      | fail eintr => cases eintr <;> simp_all [EpollResult.wait]
      | events evs => simp [EpollResult.wait, hw] at hneg; omega
    · have hnil : sys.wait.wait.2 = [] := by
        cases hw : sys.wait with
        | fail eintr => cases eintr <;> rfl
        | events evs => simp [EpollResult.wait, hw] at hneg; omega
      refine netEffect_idle ?_ ?_ <;> simp [Readable, Writable, hkind, hnil]
  · rename_i hneg
    have htrue : (true = false ↔ sys.wait = .fail false) := by
      refine iff_of_false (by simp) fun hw => hneg ?_
      rw [hw]
      decide
    have hrun := events_toured hk.owns (s := s.setDerived (.epoll ⟨ep⟩)) rfl hD' hwaits.1
      fun ev hev => by
        obtain ⟨x, hx, hptr⟩ := hwaits.2 ev hev
        exact ⟨x.1, x.2.ptr, hptr, hreg x hx⟩
    refine hrun.bind fun u hu => ⟨htrue, ⟨ep⟩, hk.trans hu.toKept, hk.owns, ?_⟩
    rwa [netEffect_congr (t := s.setDerived (.epoll ⟨ep⟩)) hkind.symm] at hu

/-! ## DoNetEvents -/

/-- What `epoll_wait` may return for the server. -/
def Reports (s : ServerState) (sys : SysCalls) : Prop :=
  match s.srv.derived with
  | .select _ => True
  | .epoll d => d.ep.Reports sys.wait

instance (s : ServerState) (sys : SysCalls) : Decidable (s.Reports sys) :=
  match hd : s.srv.derived with
  | .select _ => isTrue (by rw [Reports, hd]; trivial)
  | .epoll d => decidable_of_iff (d.ep.Reports sys.wait) (by rw [Reports, hd])

/-- What `DoNetEvents` leaves. A select server must have a right cache for it. -/
structure Rounded (s : ServerState) (sys : SysCalls) (t : ServerState) (others : List Ptr) : Prop
    extends Kept s t others where
  select : ∀ d, s.srv.derived = .select d → s.CacheReal d → ∃ d', s.Cached d' ∧
    (s.selected d').Toured (s.netEffect sys) t others s.srv.clients.values
  epoll : ∀ d, s.srv.derived = .epoll d → ∃ d', (s.setDerived (.epoll d')).Owns others ∧
    (s.setDerived (.epoll d')).Toured (s.netEffect sys) t others s.srv.clients.values

/-- With a right cache it is a sweep of the clients, from a state with other members of the
subclass and another flag. -/
theorem Rounded.toured (hround : s.Rounded sys t others) (h : s.Owns others)
    (hcache : ∀ d, s.srv.derived = .select d → s.CacheReal d) : ∃ u : ServerState,
      u.Owns others ∧ u.table = s.table ∧ u.srv.clients = s.srv.clients ∧
      u.srv.clientsBuff = s.srv.clientsBuff ∧
      u.Toured (s.netEffect sys) t others s.srv.clients.values := by
  cases hd : s.srv.derived with
  | select d =>
    obtain ⟨d', -, htour⟩ := hround.select d hd (hcache d hd)
    exact ⟨_, (h.selected (CELLServer.kind_eq_select.mpr ⟨d, hd⟩) d').owns, rfl, rfl, rfl, htour⟩
  | epoll d =>
    obtain ⟨d', ho, htour⟩ := hround.epoll d hd
    exact ⟨_, ho, rfl, rfl, rfl, htour⟩

/-- The call that waits fails, and was not interrupted. -/
def WaitFails (s : ServerState) (sys : SysCalls) : Prop :=
  match s.srv.kind with
  | .select => sys.select = .fail false
  | .epoll => sys.wait = .fail false

/-- `DoNetEvents` returns false if the call that waits fails. -/
theorem doNetEvents_sat (h : s.Owns others) (hr : s.Reports sys) (hD : s.Defined E sys)
    (hcache : E .outOfBounds ∨ ∀ d, s.srv.derived = .select d → s.CacheReal d) :
    Exec.Sat E (s.doNetEvents sys) fun x =>
      (x.1 = false ↔ s.WaitFails sys) ∧ s.Rounded sys x.2 others := by
  unfold doNetEvents WaitFails
  unfold Reports at hr
  cases hd : s.srv.derived with
  | select d =>
    rw [show s.srv.kind = .select by rw [CELLServer.kind, hd]]
    refine (selectNetEvents_toured h hd hD (hcache.imp_right fun hall => hall d hd)).mono ?_
    rintro x ⟨hret, d', hk, hround⟩
    refine ⟨hret, hk, fun d₁ hd₁ hreal => ?_, fun d₁ hd₁ => by simp [hd] at hd₁⟩
    obtain rfl : d = d₁ := Derived.select.inj (hd.symm.trans hd₁)
    exact ⟨d', hround hreal⟩
  | epoll d =>
    rw [show s.srv.kind = .epoll by rw [CELLServer.kind, hd]]
    rw [hd] at hr
    refine (epollNetEvents_toured h hd hr hD).mono ?_
    rintro x ⟨hret, d', hk, hround⟩
    exact ⟨hret, hk, fun d₁ hd₁ => by simp [hd] at hd₁, fun _ _ => ⟨d', hround⟩⟩

end ServerState

end CellNet
