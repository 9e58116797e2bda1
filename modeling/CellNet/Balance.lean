import CellNet.Admission

/-!
# How the clients are spread

`addClientToCELLServer` gives a client to a worker with the fewest clients, those that wait
in its buffer included. A hand-over moves them from the buffer into the map, so it changes
no count (`HandedOver.getClientCount`), and as long as no client has left, the counts of two
workers differ by one at most : `clients_spread_evenly`.
-/

namespace CellNet

/-- A hand-over keeps all clients. -/
theorem ServerState.HandedOver.getClientCount {s t : ServerState} {others : List Ptr}
    (h : s.HandedOver t others) (ho : s.Owns others) :
    t.srv.getClientCount = s.srv.getClientCount := by
  have hlive : ∀ p, (∃ c, t.heap.get? p = some c) ↔ ∃ c, s.heap.get? p = some c := by
    intro p
    by_cases hp : p ∈ s.srv.clientsBuff
    · obtain ⟨c, hc⟩ := ho.get? (s.srv.mem_held.mpr (Or.inr hp))
      have hvisit := h.swept.visit p hp
      rw [ServerState.table_eq hc] at hvisit
      cases hx : t.table p with
      | mk o es =>
        rw [hx] at hvisit
        cases hvisit with
        | present hR => exact iff_of_true ⟨_, (congrArg Prod.fst hx).trans hR.1⟩ ⟨c, hc⟩
    · have hframe : t.heap.get? p = s.heap.get? p := congrArg Prod.fst (h.swept.frame p hp)
      rw [hframe]
  have hperm : (t.srv.held ++ others).Perm (s.srv.held ++ others) :=
    (List.perm_ext_iff_of_nodup h.owns.nodup ho.nodup).mpr fun p => by
      rw [← h.owns.live p, ← ho.live p, hlive p]
  have hlen := hperm.length_eq
  rw [List.length_append, List.length_append, CELLServer.length_held,
    CELLServer.length_held] at hlen
  omega

namespace EasyTcpServer

variable {s t : EasyTcpServer} {a : TcpAct} {i : ℕ} {srv : CELLServer} {u : ServerState}
  {h : Handler} {kind : ServerKind}

/-! ## Runs without removals -/

/-- Every client that was ever created is still there. -/
def KeepsAll (s : EasyTcpServer) : Prop :=
  ∀ p < s.heap.size, ∃ c, s.heap.get? p = some c

instance (s : EasyTcpServer) : Decidable s.KeepsAll :=
  decidable_of_iff (∀ p < s.heap.size, (s.heap.get? p).isSome = true) <|
    forall₂_congr fun _ _ => Option.isSome_iff_exists

/-- The client counts of two workers differ by one at most. -/
def Even (s : EasyTcpServer) : Prop :=
  ∀ srv ∈ s.cellServers, ∀ srv' ∈ s.cellServers, srv.getClientCount ≤ srv'.getClientCount + 1

/-- Then the workers hold as many clients as were created. -/
theorem KeepsAll.sum_eq (hs : s.KeepsAll) (ho : s.Owned) :
    s.sum CELLServer.getClientCount = s.heap.size := by
  have hperm : s.held.Perm (List.range s.heap.size) :=
    (List.perm_ext_iff_of_nodup ho.nodup List.nodup_range).mpr fun p => by
      rw [← ho.live p, List.mem_range]
      exact ⟨fun ⟨c, hc⟩ => Heap.lt_size hc, hs p⟩
  have hlen := hperm.length_eq
  rw [List.length_range, held, List.length_flatMap] at hlen
  simpa only [sum, CELLServer.length_held] using hlen

/-- A client that was deleted does not come back. -/
theorem Stepped.keepsAll (hst : s.Stepped a t) (ht : t.KeepsAll) : s.KeepsAll := by
  cases hst with
  | refused => exact ht
  | accepted =>
    intro p hp
    obtain ⟨c, hc⟩ := ht p (Nat.lt_of_lt_of_eq (Nat.lt_succ_of_lt hp) Heap.size_new.symm)
    exact ⟨c, ((if_neg (Nat.ne_of_lt hp)).symm.trans (Heap.get?_new (q := p)).symm).trans hc⟩
  | logged => exact ht
  | closed => exact ht
  | worked hi hw =>
    intro p hp
    obtain ⟨c, hc⟩ := ht p (Nat.lt_of_lt_of_eq hp hw.size.symm)
    obtain ⟨c₀, hc₀, -⟩ := hw.old p c hc
    exact ⟨c₀, hc₀⟩

/-- A section that removes no client keeps the count of its worker. -/
theorem Owned.getClientCount_worked (ho : s.Owned) (hi : s.cellServers[i]? = some srv)
    (hw : (s.view srv).Worked u (s.others i)) (ht : (s.put i u).KeepsAll) (hs : s.KeepsAll) :
    u.srv.getClientCount = srv.getClientCount := by
  have hsum := hs.sum_eq ho
  have hsum' := ht.sum_eq (ho.put_worked hi hw)
  have hput := sum_put (u := u) hi CELLServer.getClientCount
  have hsize : (s.put i u).heap.size = s.heap.size := hw.size
  omega

/-- A worker whose count does not change. -/
theorem Even.put (hs : s.Even) (hi : s.cellServers[i]? = some srv)
    (hcount : u.srv.getClientCount = srv.getClientCount) : (s.put i u).Even := by
  have hmem : ∀ srv₁ ∈ (s.put i u).cellServers,
      ∃ srv₂ ∈ s.cellServers, srv₁.getClientCount = srv₂.getClientCount := by
    intro srv₁ h₁
    rcases mem_put hi h₁ with rfl | ⟨h₁, -⟩
    · exact ⟨srv, List.mem_of_getElem? hi, hcount⟩
    · exact ⟨srv₁, h₁, rfl⟩
  intro srv₁ h₁ srv₂ h₂
  obtain ⟨srv₁', h₁', heq₁⟩ := hmem srv₁ h₁
  obtain ⟨srv₂', h₂', heq₂⟩ := hmem srv₂ h₂
  rw [heq₁, heq₂]
  exact hs _ h₁' _ h₂'

/-- The worker with the fewest clients may get one more. -/
theorem Even.put_addClient (hs : s.Even) (hmin : s.IsMin i srv) (c : CELLClient) :
    (s.put i ((s.view srv).addClient c)).Even := by
  have hadd : ((s.view srv).addClient c).srv.getClientCount = srv.getClientCount + 1 := by
    simp [ServerState.addClient, CELLServer.getClientCount, CELLServer.addClient, view,
      Nat.add_assoc]
  have hle : ∀ srv' ∈ s.cellServers, srv.getClientCount ≤ srv'.getClientCount := by
    intro srv' hmem
    obtain ⟨j, hj⟩ := List.mem_iff_getElem?.mp hmem
    exact (hmin.2 j srv' hj).1
  have hsrv := List.mem_of_getElem? hmin.1
  intro srv₁ h₁ srv₂ h₂
  rcases mem_put hmin.1 h₁ with rfl | ⟨h₁, -⟩
  · rcases mem_put hmin.1 h₂ with rfl | ⟨h₂, -⟩
    · exact Nat.le_succ _
    · rw [hadd]
      exact Nat.succ_le_succ (hle srv₂ h₂)
  · rcases mem_put hmin.1 h₂ with rfl | ⟨h₂, -⟩
    · have := hs srv₁ h₁ srv hsrv
      omega
    · exact hs srv₁ h₁ srv₂ h₂

theorem Stepped.even (hst : s.Stepped a t) (ho : s.Owned) (hs : s.Even) (ht : t.KeepsAll) :
    t.Even := by
  have hkeeps := hst.keepsAll ht
  cases hst with
  | refused => exact hs
  | accepted hsock hcount hmin => exact hs.put_addClient hmin _
  | logged => exact hs
  | closed hi => exact hs.put hi rfl
  | worked hi hw => exact hs.put hi (ho.getClientCount_worked hi hw ht hkeeps)

theorem even_init (hinit : (tcpServer h kind).init s) : s.Even := by
  intro srv₁ h₁ srv₂ h₂
  obtain ⟨hclients, hbuff, -⟩ := mem_init hinit h₁
  rw [CELLServer.getClientCount, hclients, hbuff]
  exact Nat.zero_le _

/-- In a run without removals the workers are even in every state. -/
theorem Owned.even_run {s₀ : EasyTcpServer} {tr : List (EasyTcpServer × TcpAct)}
    (hinit : (tcpServer h kind).init s₀) (hrun : (tcpServer h kind).Run s₀ tr s) :
    s.KeepsAll → s.Even := by
  refine (hrun.invariant (I := fun s => s.Owned ∧ (s.KeepsAll → s.Even)) ?_
    ⟨.init hinit, fun _ => even_init hinit⟩).2
  rintro s a t ⟨ho, hs⟩ hstep
  have hst := ho.stepped hstep
  exact ⟨ho.step hstep, fun ht => hst.even ho (hs (hst.keepsAll ht)) ht⟩

/-! ## The hand-over and the search -/

theorem Stepped.length_cellServers (hst : s.Stepped a t) :
    t.cellServers.length = s.cellServers.length := by
  cases hst with
  | refused => rfl
  | accepted => exact List.length_set
  | logged => rfl
  | closed => exact List.length_set
  | worked => exact List.length_set

theorem Owned.length_run {s₀ : EasyTcpServer} {tr : List (EasyTcpServer × TcpAct)}
    (hinit : (tcpServer h kind).init s₀) (hrun : (tcpServer h kind).Run s₀ tr s) :
    s.cellServers.length = s₀.cellServers.length := by
  refine (hrun.invariant (I := fun s => s.Owned ∧ s.cellServers.length = s₀.cellServers.length) ?_
    ⟨.init hinit, rfl⟩).2
  rintro s a t ⟨ho, hlen⟩ hstep
  exact ⟨ho.step hstep, (ho.stepped hstep).length_cellServers.trans hlen⟩

/-- The client counts of the workers. -/
def clientCounts (s : EasyTcpServer) : List ℕ :=
  s.cellServers.map CELLServer.getClientCount

theorem Owned.clientCounts_handOver (ho : s.Owned) (hi : s.cellServers[i]? = some srv)
    (hpc : srv.pc = .handOver) {sys : SysCalls}
    (hstep : (tcpServer h kind).step s (.work i sys) (.ok t)) :
    t.clientCounts = s.clientCounts := by
  obtain ⟨hk, n, hact⟩ := hstep
  rw [act] at hact
  obtain ⟨srv', u, hi', hu, rfl⟩ := onServer_eq_ok hact
  obtain rfl : srv = srv' := Option.some.inj (hi.symm.trans hi')
  have hran : (s.view srv).Ran sys (s.others i) u := ServerState.work_ran (E := fun _ => True)
    trivial trivial h (ho.server hi) ho.distinct (hk srv hi) hu
  have hcount : u.srv.getClientCount = srv.getClientCount := by
    cases hran with
    | handOver _ hover => exact hover.getClientCount (ho.server hi)
    | _ => simp_all [view]
  rw [clientCounts, put_eq hi, clientCounts]
  conv_rhs => rw [cellServers_eq hi]
  simp only [List.map_append, List.map_cons, hcount]

/-- `addClientToCELLServer` finds a worker with the fewest clients. -/
theorem addClientToCELLServer_eq (hne : s.cellServers ≠ []) (p : Ptr) : ∃ i srv, s.IsMin i srv ∧
    ∀ heap, { s with heap }.addClientToCELLServer p =
      .ok { s with heap, cellServers := s.cellServers.set i (srv.addClient p) } := by
  obtain ⟨first, rest, hs⟩ := List.exists_cons_of_ne_nil hne
  refine ⟨_, _, minServer_isMin hs, fun heap => ?_⟩
  unfold addClientToCELLServer
  split
  · exact absurd ‹_› hne
  · rename_i first' rest' hs'
    obtain ⟨rfl, -⟩ := List.cons.inj (hs.symm.trans hs')
    rfl

end EasyTcpServer

/-- How the clients are spread. Whatever the number of workers, in every state a run of the
server comes to, a new client goes to a worker with the fewest clients, a hand-over
changes no client count, and if no client has been removed in the run, the largest and the
smallest client count differ by one at most. -/
theorem clients_spread_evenly (h : Handler) (kind : ServerKind) {s₀ s : EasyTcpServer}
    {tr : List (EasyTcpServer × TcpAct)} (hinit : (tcpServer h kind).init s₀)
    (hne : s₀.cellServers ≠ []) (hrun : (tcpServer h kind).Run s₀ tr s) :
    (∀ p, ∃ (i : ℕ) (srv : CELLServer), s.cellServers[i]? = some srv ∧
      (∀ n ∈ s.clientCounts, srv.getClientCount ≤ n) ∧
      ∀ heap, { s with heap }.addClientToCELLServer p =
        .ok { s with heap, cellServers := s.cellServers.set i (srv.addClient p) }) ∧
    (∀ (i : ℕ) (srv : CELLServer) sys t, s.cellServers[i]? = some srv → srv.pc = .handOver →
      (tcpServer h kind).step s (.work i sys) (.ok t) → t.clientCounts = s.clientCounts) ∧
    (s.KeepsAll → ∀ m ∈ s.clientCounts, ∀ n ∈ s.clientCounts, m ≤ n + 1) := by
  have ho := EasyTcpServer.Owned.run hinit hrun
  have hlen := EasyTcpServer.Owned.length_run hinit hrun
  have hne' : s.cellServers ≠ [] := by
    rw [← List.length_pos_iff, hlen, List.length_pos_iff]
    exact hne
  refine ⟨fun p => ?_, fun i srv sys t hi hpc hstep => ho.clientCounts_handOver hi hpc hstep,
    fun hs => ?_⟩
  · obtain ⟨i, srv, hmin, hadd⟩ := EasyTcpServer.addClientToCELLServer_eq hne' p
    refine ⟨i, srv, hmin.1, fun n hn => ?_, hadd⟩
    obtain ⟨srv', hmem, rfl⟩ := List.mem_map.mp hn
    obtain ⟨j, hj⟩ := List.mem_iff_getElem?.mp hmem
    exact (hmin.2 j srv' hj).1
  · have heven := EasyTcpServer.Owned.even_run hinit hrun hs
    simp only [EasyTcpServer.clientCounts, List.forall_mem_map]
    exact heven

/-- Two workers get a client each, and one of them hands it over. -/
theorem clients_spread_evenly_two : ∃ tr s,
    (tcpServer .ignore .select).Run (.newSelect 2 10) tr s ∧ s.clientCounts = [1, 1] ∧
    ∀ m ∈ s.clientCounts, ∀ n ∈ s.clientCounts, m ≤ n + 1 := by
  let sys : SysCalls := ⟨0, fun _ => true, .ready [] [], .events [], fun _ => .fail,
    fun _ => .accept 0⟩
  let acts : List TcpAct := [.accept 4 (fun _ => 0) fun _ => 0, .accept 5 (fun _ => 0) fun _ => 0,
    .work 0 sys, .work 0 sys]
  let next? := Machine.next? EasyTcpServer.Kernel (EasyTcpServer.act .ignore) 0
  have heval : (acts.foldlM next? (.newSelect 2 10)).map (fun s =>
      (s.clientCounts, decide s.KeepsAll)) = some ([1, 1], true) := by
    decide +kernel
  obtain ⟨tr, s, hrun, -, hstate⟩ := Machine.Run.of_next?_map (tcpServer .ignore .select).init heval
  obtain ⟨hcounts, hkeeps⟩ := Prod.mk.inj hstate
  have hne : (EasyTcpServer.newSelect 2 10).cellServers ≠ [] := List.cons_ne_nil _ _
  obtain ⟨-, -, heven⟩ := clients_spread_evenly .ignore .select
    (EasyTcpServer.newSelect_init .ignore 2 10) hne hrun
  exact ⟨tr, s, hrun, hcounts, heven (of_decide_eq_true hkeeps)⟩

end CellNet
