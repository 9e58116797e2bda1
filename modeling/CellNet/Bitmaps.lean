import CellNet.SelectEpoll

/-!
# The bounds of the bitmaps

The bitmaps of a select server have `CELL_MAX_FD` bits. `CELLFDSet::add` leaves out a
descriptor that is no position of them, but the same descriptor goes into `_maxSock`, and
from there as `nfds` into `select`, and `ReadData` and `WriteData` ask `has` for it without
a test. `bitmaps_in_bounds_iff` : `DoNetEvents` stays within the bitmaps exactly when there
are clients and all their descriptors are positions.
-/

namespace CellNet

namespace ServerState

variable {s : ServerState} {others : List Ptr} {sys : SysCalls}

/-- What `select` is given. Where it returns, there was a client, and the largest descriptor
is a position of the bitmaps. -/
theorem selectNetEvents_fd_lt (ho : s.Owns others) {d : CELLSelectServer} (hreal : s.CacheReal d)
    {x : Bool × ServerState} (h : s.selectNetEvents sys d = .ok x) :
    s.srv.clients.entries ≠ [] ∧ ∀ e ∈ s.srv.clients.entries, e.1 < CELL_MAX_FD := by
  obtain ⟨⟨t, d'⟩, hread, h⟩ := Fallible.bind_eq_ok.mp h
  obtain ⟨⟨bNeedWrite, fdWrite⟩, -, h⟩ := Fallible.bind_eq_ok.mp h
  obtain ⟨r, hselect, -⟩ := Fallible.bind_eq_ok.mp h
  have hcached : s.Cached d' := by
    have hsat := readSet_sat (E := fun _ => True) ho (Or.inl trivial) (fun _ _ => Or.inl trivial) d
    rw [hread] at hsat
    exact hsat.2.2.2 hreal
  have hnfds : d'.maxSock + 1 ≤ CELL_MAX_FD := by
    by_contra hlarge
    unfold select at hselect
    rw [if_pos (not_le.mp hlarge)] at hselect
    simp at hselect
  refine ⟨fun hnil => ?_, fun e he => ?_⟩
  · have hlast := hcached.maxSock
    rw [SortedMap.keys, hnil] at hlast
    simp at hlast
  · have hle := SortedMap.le_getLast (SortedMap.mem_keys.mpr ⟨e.2, he⟩) hcached.maxSock
    exact Int.lt_of_lt_of_le (Int.lt_add_one_of_le hle) hnfds

/-- Where `DoNetEvents` of a run returns. -/
theorem fd_lt_of_doNetEvents {h : Handler} {s₀ : ServerState} {tr : List (ServerState × ServerAct)}
    (hinit : (server h .select).init s₀) (hrun : (server h .select).Run s₀ tr s)
    (hpc : s.srv.pc = .doNetEvents) {x : Bool × ServerState} (hdo : s.doNetEvents sys = .ok x) :
    s.srv.clients.entries ≠ [] ∧ ∀ e ∈ s.srv.clients.entries, e.1 < CELL_MAX_FD := by
  have hs := CacheOwned.run hinit hrun
  have hcache := hs.cache (by simp [hpc])
  obtain ⟨d, hd⟩ := CELLServer.kind_eq_select.mp (Owned.kind_run hinit hrun)
  rw [doNetEvents, hd] at hdo
  exact selectNetEvents_fd_lt hs.owns (hcache d hd) hdo

end ServerState

/-- When the bitmaps are not overrun. Wherever a run of a select server comes to
`DoNetEvents`, with no descriptor negative and the buffers of the clients within their
blocks, and whatever the system calls return, the call touches no bit outside the bitmaps
and gives `select` no range beyond them exactly when there are clients and all their
descriptors are positions of the bitmaps. -/
theorem bitmaps_in_bounds_iff (h : Handler) {s₀ s : ServerState}
    {tr : List (ServerState × ServerAct)} (hinit : (server h .select).init s₀)
    (hrun : (server h .select).Run s₀ tr s) (hpc : s.srv.pc = .doNetEvents)
    (hfd : ∀ e ∈ s.srv.clients.entries, 0 ≤ e.1)
    (hwf : ∀ p c, s.heap.get? p = some c → c.recvBuff.WF ∧ c.sendBuff.WF) (sys : SysCalls) :
    (∃ ret s', s.doNetEvents sys = .ok (ret, s')) ↔
      s.srv.clients.entries ≠ [] ∧ ∀ e ∈ s.srv.clients.entries, e.1 < CELL_MAX_FD := by
  have hs := ServerState.CacheOwned.run hinit hrun
  have hcache := hs.cache (by simp [hpc])
  obtain ⟨d, hd⟩ := CELLServer.kind_eq_select.mp (ServerState.Owned.kind_run hinit hrun)
  constructor
  · rintro ⟨ret, s', hdo⟩
    exact ServerState.fd_lt_of_doNetEvents hinit hrun hpc hdo
  · rintro ⟨hnonempty, hlt⟩
    have hreports : s.Reports sys := by
      rw [ServerState.Reports, hd]
      trivial
    have hdefined : s.Defined (fun _ => False) sys :=
      .of_wf hnonempty (fun e he => ⟨hfd e he, hlt e he⟩) hwf sys
    obtain ⟨⟨ret, s'⟩, hdo, -⟩ :=
      (ServerState.doNetEvents_sat hs.owns hreports hdefined (Or.inr hcache)).exists_ok
    exact ⟨ret, s', hdo⟩

/-- A client with small buffers. -/
def smallClient (fd : SOCKET) : CELLClient :=
  .new fd 4 4 (fun _ => 0) fun _ => 0

/-- A new server gets one client and comes to its first `DoNetEvents`. -/
def oneClient (fd : SOCKET) : Option ServerState :=
  let sys : SysCalls := ⟨0, fun _ => true, .ready [] [], .events [], fun _ => .fail,
    fun _ => .accept 0⟩
  let acts : List ServerAct := .addClient (smallClient fd) :: List.replicate 4 (.work sys)
  acts.foldlM (Machine.next? ServerState.Kernel (ServerState.act .ignore) 1) .newSelect

theorem exists_oneClient (fd : SOCKET) (heval : (oneClient fd).map (fun s =>
      (s.srv.pc, s.srv.clients.entries,
        s.heap.cells.map (Option.map fun c => (c.recvBuff, c.sendBuff)))) =
      some (.doNetEvents, [(fd, 0)], [some (.new 4 fun _ => 0, .new 4 fun _ => 0)])) :
    ∃ tr s, (server .ignore .select).Run .newSelect tr s ∧ s.srv.pc = .doNetEvents ∧
      s.srv.clients.entries = [(fd, 0)] ∧
      ∀ p c, s.heap.get? p = some c → c.recvBuff.WF ∧ c.sendBuff.WF := by
  obtain ⟨tr, s, hrun, -, hstate⟩ :=
    Machine.Run.of_next?_map (server .ignore .select).init heval
  simp only [Prod.mk.injEq] at hstate
  obtain ⟨hpc, hentries, hheap⟩ := hstate
  refine ⟨tr, s, hrun, hpc, hentries, fun p c hc => ?_⟩
  have hcell := congrArg (fun cells => cells[p]?) hheap
  simp only [List.getElem?_map, Heap.get?_eq_some.mp hc, Option.map_some] at hcell
  have hnew : (CELLBuffer.new 4 fun _ => 0).WF := CELLBuffer.new_wf (by decide) (by decide) _
  rcases p with _ | p
  · simp only [List.getElem?_cons_zero, Option.some.injEq, Prod.mk.injEq] at hcell
    exact ⟨hcell.1 ▸ hnew, hcell.2 ▸ hnew⟩
  · simp at hcell

/-- A client with the descriptor `CELL_MAX_FD`. -/
theorem not_bitmaps_in_bounds : ¬∀ (h : Handler) (s₀ s : ServerState)
    (tr : List (ServerState × ServerAct)) (sys : SysCalls), (server h .select).init s₀ →
    (server h .select).Run s₀ tr s → s.srv.pc = .doNetEvents → s.srv.clients.entries ≠ [] →
    (∀ e ∈ s.srv.clients.entries, 0 ≤ e.1) →
    (∀ p c, s.heap.get? p = some c → c.recvBuff.WF ∧ c.sendBuff.WF) →
    ∃ ret s', s.doNetEvents sys = .ok (ret, s') := by
  intro hall
  obtain ⟨tr, s, hrun, hpc, hentries, hwf⟩ := exists_oneClient 10240 (by decide +kernel)
  let sys : SysCalls := ⟨0, fun _ => true, .ready [] [], .events [], fun _ => .fail,
    fun _ => .accept 0⟩
  have hfd : ∀ e ∈ s.srv.clients.entries, 0 ≤ e.1 := by
    rw [hentries]
    decide
  have hinit := ServerState.newSelect_init .ignore
  obtain ⟨ret, s', hdo⟩ :=
    hall .ignore _ s tr sys hinit hrun hpc (by rw [hentries]; simp) hfd hwf
  have hlt := (ServerState.fd_lt_of_doNetEvents hinit hrun hpc hdo).2
  rw [hentries] at hlt
  exact absurd (hlt _ List.mem_cons_self) (by decide)

/-- A client with the descriptor 3. -/
theorem bitmaps_in_bounds_iff_one : ∃ tr s, (server .ignore .select).Run .newSelect tr s ∧
    s.srv.clients.entries = [(3, 0)] ∧
    ∀ sys, ∃ ret s', s.doNetEvents sys = .ok (ret, s') := by
  obtain ⟨tr, s, hrun, hpc, hentries, hwf⟩ := exists_oneClient 3 (by decide +kernel)
  refine ⟨tr, s, hrun, hentries, fun sys => (bitmaps_in_bounds_iff .ignore
    (ServerState.newSelect_init .ignore) hrun hpc ?_ hwf sys).mpr ⟨?_, ?_⟩⟩
  · rw [hentries]
    decide
  · rw [hentries]
    simp
  · rw [hentries]
    decide

end CellNet
