import CellNet.TcpServer
import Mathlib.Algebra.Order.BigOperators.Group.List
import Mathlib.Data.Finset.Card

/-!
# What Accept relies on

`Accept` admits a client if `_clientCount` is below `_nMaxClient`, and gives it to the
worker with the fewest clients. Over every run, and each time exactly :

* the clients held stay within the limit if every `Accept` that admits a client would do so
  with the clients that wait counted too (`within_limit_iff`). The counter misses those not
  handed over yet.
* the counter is the number of clients in the maps if no `ClearClients` finds a client
  in its map (`client_count_iff`). It deletes them without counting.
* a client goes to a worker whose loop runs, while there is one, if one of these has
  fewer clients than the workers whose loop is over (`gives_to_running_iff`). The search
  does not ask whether a worker runs, and one that was cleared has no clients.
-/

namespace CellNet

namespace EasyTcpServer

variable {s t : EasyTcpServer} {a : TcpAct} {i : ℕ} {srv : CELLServer} {u : ServerState}
  {h : Handler} {kind : ServerKind}

/-- The sum of `f` over the workers. -/
def sum (s : EasyTcpServer) (f : CELLServer → ℕ) : ℕ :=
  (s.cellServers.map f).sum

theorem sum_init (hinit : (tcpServer h kind).init s) {f : CELLServer → ℕ}
    (hf : ∀ srv, srv.clients = .empty → srv.clientsBuff = [] → f srv = 0) : s.sum f = 0 := by
  refine List.sum_eq_zero fun n hn => ?_
  obtain ⟨srv, hmem, rfl⟩ := List.mem_map.mp hn
  obtain ⟨hclients, hbuff, -⟩ := mem_init hinit hmem
  exact hf srv hclients hbuff

theorem sum_put (hi : s.cellServers[i]? = some srv) (f : CELLServer → ℕ) :
    (s.put i u).sum f + f srv = s.sum f + f u.srv := by
  have hsum : s.sum f =
      ((s.cellServers.take i ++ srv :: s.cellServers.drop (i + 1)).map f).sum := by
    rw [← cellServers_eq hi, sum]
  rw [hsum, sum, put_eq hi]
  simp only [List.map_append, List.map_cons, List.sum_append, List.sum_cons]
  omega

theorem sum_put_addClient (hi : s.cellServers[i]? = some srv) (c : CELLClient) :
    (s.put i ((s.view srv).addClient c)).sum CELLServer.getClientCount =
      s.sum CELLServer.getClientCount + 1 := by
  have hadd : ((s.view srv).addClient c).srv.getClientCount = srv.getClientCount + 1 := by
    simp [ServerState.addClient, CELLServer.getClientCount, CELLServer.addClient, view,
      Nat.add_assoc]
  have hsum := sum_put (u := (s.view srv).addClient c) hi CELLServer.getClientCount
  omega

/-- A server just started with `n` select workers. -/
def newSelect (n : ℕ) (nMaxClient : ℤ) : EasyTcpServer :=
  ⟨.empty, .zero, [], start (List.replicate n (0, .select ⟨.zero, .zero, .zero, 0⟩)), 3, 64, 64,
    nMaxClient⟩

theorem newSelect_init (h : Handler) (n : ℕ) (nMaxClient : ℤ) :
    (tcpServer h .select).init (newSelect n nMaxClient) := by
  have hsock : IsFd 3 := by decide
  refine ⟨rfl, rfl, rfl, hsock, _, fun x hx => ?_, rfl⟩
  rw [List.eq_of_mem_replicate hx]
  exact ⟨rfl, rfl, rfl⟩

/-- There are fewer clients than descriptors. -/
theorem Owned.held_length (ho : s.Owned) : s.held.length < 2147483648 := by
  let fd : Ptr → ℤ := fun p => ((s.heap.get? p).map CELLClient.sockfd).getD 0
  have hfd : ∀ p ∈ s.held, ∃ c, s.heap.get? p = some c ∧ fd p = c.sockfd := by
    intro p hp
    obtain ⟨c, hc⟩ := (ho.live p).mpr hp
    exact ⟨c, hc, by simp [fd, hc]⟩
  have hnodup : (s.held.map fd).Nodup := by
    refine ho.nodup.map_on fun p hp q hq heq => ?_
    obtain ⟨c, hc, hpc⟩ := hfd p hp
    obtain ⟨d, hd, hqd⟩ := hfd q hq
    exact ho.distinct p q c d hc hd (by rw [← hpc, ← hqd, heq])
  have hsub : (s.held.map fd).toFinset ⊆ (Finset.Ico 0 2147483648).erase s.sock := by
    intro x hx
    obtain ⟨p, hp, rfl⟩ := List.mem_map.mp (List.mem_toFinset.mp hx)
    obtain ⟨c, hc, hpc⟩ := hfd p hp
    obtain ⟨hrange, hne⟩ := ho.sockfd p c hc
    rw [hpc]
    exact Finset.mem_erase.mpr ⟨hne, Finset.mem_Ico.mpr hrange⟩
  have hsock : s.sock ∈ Finset.Ico 0 2147483648 := Finset.mem_Ico.mpr ho.sock
  have hcard := (Finset.card_le_card hsub).trans_lt (Finset.card_erase_lt_of_mem hsock)
  rw [List.toFinset_card_of_nodup hnodup, List.length_map, Int.card_Ico] at hcard
  simpa using hcard

theorem Owned.sum_size_lt (ho : s.Owned) :
    s.sum (fun srv => srv.clients.size) < 2147483648 := by
  refine lt_of_le_of_lt ?_ ho.held_length
  rw [held, List.length_flatMap, sum]
  refine List.sum_le_sum fun srv _ => ?_
  rw [CELLServer.length_held]
  exact Nat.le_add_right _ _

/-! ## The connection limit -/

/-- The clients held are at most `_nMaxClient`. -/
def WithinLimit (s : EasyTcpServer) : Prop :=
  (s.sum CELLServer.getClientCount : ℤ) ≤ s.nMaxClient

/-- The clients in the maps. -/
def joined (s : EasyTcpServer) : ℕ :=
  s.sum fun srv => srv.clients.size

/-- The clients in the `_clientsBuff`s. -/
def waiting (s : EasyTcpServer) : ℕ :=
  s.sum fun srv => srv.clientsBuff.length

/-- The clients of the map that an action deletes in `ClearClients`. -/
def uncounted (s : EasyTcpServer) : TcpAct → ℕ
  | .work i _ =>
    match s.cellServers[i]? with
    | some srv => if srv.pc = .clearClients then srv.clients.size else 0
    | none => 0
  | _ => 0

/-- The clients that `_clientCount` still counts although `ClearClients` has deleted them. -/
def stale (tr : List (EasyTcpServer × TcpAct)) : ℕ :=
  (tr.map fun x => x.1.uncounted x.2).sum

/-- An `Accept` that admits a client would still admit it if `_clientCount` counted the
clients that wait too, and not those that `ClearClients` has deleted. -/
def FindsRoom (tr : List (EasyTcpServer × TcpAct)) (s : EasyTcpServer) : TcpAct → Prop
  | .accept cSock _ _ => INVALID_SOCKET ≠ cSock → s.counts.clientCount < s.nMaxClient →
      int32 (s.counts.clientCount - stale tr) + s.waiting < s.nMaxClient
  | _ => True

theorem sum_getClientCount (s : EasyTcpServer) :
    s.sum CELLServer.getClientCount = s.joined + s.waiting := by
  rw [joined, waiting, sum, sum, sum, ← List.sum_map_add]
  rfl

/-- `_clientCount` counts the clients in the maps and those that `ClearClients` deleted. -/
structure Counted (tr : List (EasyTcpServer × TcpAct)) (s : EasyTcpServer) : Prop where
  owned : s.Owned
  count : s.counts.clientCount % 4294967296 = ((s.joined : ℤ) + stale tr) % 4294967296

theorem Counted.init (hinit : (tcpServer h kind).init s) : Counted [] s := by
  refine ⟨.init hinit, ?_⟩
  rw [joined, sum_init hinit, hinit.2.1]
  · rfl
  · intro srv hclients _
    rw [hclients]
    rfl

/-- What is known of the counter after a worker has changed. -/
theorem Counted.count_put {tr : List (EasyTcpServer × TcpAct)} (hs : Counted tr s)
    (hi : s.cellServers[i]? = some srv) {n : ℕ}
    (hn : (u.counts.clientCount - u.srv.clients.size) % 4294967296 =
      (s.counts.clientCount - srv.clients.size + n) % 4294967296) :
    (s.put i u).counts.clientCount % 4294967296 =
      (((s.put i u).joined : ℤ) + (stale tr + n : ℕ)) % 4294967296 := by
  have hsum : (s.put i u).joined + srv.clients.size = s.joined + u.srv.clients.size :=
    sum_put hi fun srv => srv.clients.size
  have hcount := hs.count
  have hput : (s.put i u).counts.clientCount = u.counts.clientCount := rfl
  rw [hput]
  push_cast
  omega

theorem Counted.step {tr : List (EasyTcpServer × TcpAct)} (hs : Counted tr s)
    (hstep : (tcpServer h kind).step s a (.ok t)) : Counted (tr ++ [(s, a)]) t := by
  refine ⟨hs.owned.step hstep, ?_⟩
  have hstale : stale (tr ++ [(s, a)]) = stale tr + s.uncounted a := by
    simp [stale]
  rw [hstale]
  cases hs.owned.stepped hstep with
  | refused => exact hs.count
  | accepted _ _ hmin =>
    refine hs.count_put hmin.1 ?_
    simp [ServerState.addClient, CELLServer.addClient, view, uncounted]
  | logged => exact hs.count
  | closed hi =>
    refine hs.count_put hi ?_
    simp [ServerState.close, view, uncounted]
  | @worked i sys srv u hi hw =>
    refine hs.count_put hi ?_
    by_cases hpc : srv.pc = .clearClients
    · obtain ⟨hcount, hclients⟩ := hw.cleared hpc
      have hempty : u.srv.clients.size = 0 := by rw [hclients]; rfl
      have hview : (s.view srv).counts = s.counts := rfl
      rw [uncounted, hi, hcount, hempty, hview]
      simp [hpc]
    · have hcount := (hw.balanced hpc).count
      rw [uncounted, hi]
      simpa [hpc, view] using hcount

/-- What `Accept` would have to test. -/
theorem Counted.held_eq {tr : List (EasyTcpServer × TcpAct)} (hs : Counted tr s) :
    (s.sum CELLServer.getClientCount : ℤ) =
      int32 (s.counts.clientCount - stale tr) + s.waiting := by
  have hlt : s.joined < 2147483648 := hs.owned.sum_size_lt
  have hcount := hs.count
  have hjoined : int32 (s.counts.clientCount - stale tr) = s.joined := by
    rw [int32_congr (y := (s.joined : ℤ)) (by omega), int32_eq (by omega) (by omega)]
  rw [sum_getClientCount, hjoined, Nat.cast_add]

/-- A worker with no more clients than before keeps the limit. -/
theorem WithinLimit.put (hs : s.WithinLimit) (hi : s.cellServers[i]? = some srv)
    (hle : u.srv.getClientCount ≤ srv.getClientCount) : (s.put i u).WithinLimit := by
  have hsum := sum_put (u := u) hi CELLServer.getClientCount
  have hmax : (s.put i u).nMaxClient = s.nMaxClient := rfl
  unfold WithinLimit at hs ⊢
  omega

/-- Only `Accept` adds to the clients held. -/
theorem Counted.withinLimit_iff {tr : List (EasyTcpServer × TcpAct)} (hc : Counted tr s)
    (hst : s.Stepped a t) (hs : s.WithinLimit) : t.WithinLimit ↔ FindsRoom tr s a := by
  cases hst with
  | refused hrefused =>
    exact iff_of_true hs fun hsock hcount => absurd hcount (not_lt.mpr (hrefused hsock))
  | accepted hsock hcount hmin =>
    rw [WithinLimit, sum_put_addClient hmin.1, Nat.cast_add, Nat.cast_one, Int.add_one_le_iff,
      hc.held_eq]
    exact ⟨fun hlt _ _ => hlt, fun hroom => hroom hsock hcount⟩
  | logged => exact iff_of_true hs trivial
  | closed hi => exact iff_of_true (hs.put hi (le_refl _)) trivial
  | worked hi hw => exact iff_of_true (hs.put hi hw.held) trivial

end EasyTcpServer

/-- When the connection limit is respected. In every run the clients held are at most
`_nMaxClient` in every state, exactly when every `Accept` of the run that admits a client
would still admit it if `_clientCount` counted the clients in the `_clientsBuff`s too, and no
longer those that `ClearClients` has deleted. -/
theorem within_limit_iff (h : Handler) (kind : ServerKind) {s₀ s : EasyTcpServer}
    {tr : List (EasyTcpServer × TcpAct)} (hinit : (tcpServer h kind).init s₀)
    (hmax : 0 ≤ s₀.nMaxClient) (hrun : (tcpServer h kind).Run s₀ tr s) :
    ((∀ x ∈ tr, x.1.WithinLimit) ∧ s.WithinLimit) ↔
      Machine.Along EasyTcpServer.FindsRoom tr := by
  refine hrun.forall_iff_along (fun _ _ _ _ hc hst => EasyTcpServer.Counted.step hc hst)
    (fun _ _ _ _ hc hs hst => hc.withinLimit_iff (hc.owned.stepped hst) hs) (.init hinit) ?_
  rw [EasyTcpServer.WithinLimit, EasyTcpServer.sum_init hinit]
  · exact hmax
  · intro srv hclients hbuff
    rw [CELLServer.getClientCount, hclients, hbuff]
    rfl

/-- Two clients are accepted before the first is handed over. -/
theorem two_accepts : ∃ s₀ tr s, (tcpServer .ignore .select).init s₀ ∧ 0 ≤ s₀.nMaxClient ∧
    s₀.cellServers ≠ [] ∧ (tcpServer .ignore .select).Run s₀ tr s ∧ ¬s.WithinLimit := by
  let acts : List TcpAct := [.accept 4 (fun _ => 0) fun _ => 0, .accept 5 (fun _ => 0) fun _ => 0]
  let next? := Machine.next? EasyTcpServer.Kernel (EasyTcpServer.act .ignore) 0
  have heval : (acts.foldlM next? (.newSelect 1 1)).map (fun s =>
      (s.sum CELLServer.getClientCount, s.nMaxClient)) = some (2, 1) := by
    decide +kernel
  obtain ⟨tr, s, hrun, -, hstate⟩ := Machine.Run.of_next?_map (tcpServer .ignore .select).init heval
  obtain ⟨hsum, hmax⟩ := Prod.mk.inj hstate
  have hne : (EasyTcpServer.newSelect 1 1).cellServers ≠ [] := List.cons_ne_nil _ _
  refine ⟨_, tr, s, EasyTcpServer.newSelect_init _ _ _, by decide, hne, hrun, ?_⟩
  rw [EasyTcpServer.WithinLimit, hsum, hmax]
  decide

/-- With two accepts in a row the limit of one client is passed. -/
theorem not_within_limit : ¬∀ (h : Handler) (kind : ServerKind) (s₀ s : EasyTcpServer)
    (tr : List (EasyTcpServer × TcpAct)), (tcpServer h kind).init s₀ → 0 ≤ s₀.nMaxClient →
      s₀.cellServers ≠ [] → (tcpServer h kind).Run s₀ tr s → s.WithinLimit := by
  intro hall
  obtain ⟨s₀, tr, s, hinit, hmax, hne, hrun, hs⟩ := two_accepts
  exact hs (hall _ _ s₀ s tr hinit hmax hne hrun)

/-- Some `Accept` of that run finds the limit reached. -/
theorem within_limit_iff_two : ∃ s₀ tr s, (tcpServer .ignore .select).init s₀ ∧
    (tcpServer .ignore .select).Run s₀ tr s ∧ ¬Machine.Along EasyTcpServer.FindsRoom tr := by
  obtain ⟨s₀, tr, s, hinit, hmax, -, hrun, hs⟩ := two_accepts
  exact ⟨s₀, tr, s, hinit, hrun, fun hall =>
    hs ((within_limit_iff .ignore .select hinit hmax hrun).mpr hall).2⟩

namespace EasyTcpServer

variable {s t : EasyTcpServer} {a : TcpAct} {i : ℕ} {srv : CELLServer} {u : ServerState}
  {h : Handler} {kind : ServerKind}

/-! ## The client counter -/

/-- `_clientCount` is the number of clients in the maps. -/
def CountExact (s : EasyTcpServer) : Prop :=
  s.counts.clientCount = s.sum fun srv => srv.clients.size

/-- `ClearClients` finds no client in its map. -/
def ClearsNone (s : EasyTcpServer) : TcpAct → Prop
  | .work i _ => ∀ srv ∈ s.cellServers[i]?, srv.pc = .clearClients → srv.clients.entries = []
  | _ => True

/-- Two exact numbers of clients that agree on 32 bits are the same. -/
theorem Owned.countExact_iff (ho : s.Owned) : s.CountExact ↔
    s.counts.clientCount % 4294967296 =
      (s.sum fun srv => srv.clients.size : ℤ) % 4294967296 := by
  have hlt := ho.sum_size_lt
  refine ⟨fun heq => by rw [heq], fun heq => ?_⟩
  have h32 := int32_congr heq
  rwa [ho.int, int32_eq (by omega) (by omega)] at h32

/-- A worker with the same map keeps the counter exact. -/
theorem CountExact.put (hs : s.CountExact) (hi : s.cellServers[i]? = some srv)
    (hcount : u.counts.clientCount = s.counts.clientCount)
    (hclients : u.srv.clients = srv.clients) : (s.put i u).CountExact := by
  have hsum := sum_put (u := u) hi fun srv => srv.clients.size
  rw [hclients] at hsum
  calc u.counts.clientCount = s.counts.clientCount := hcount
    _ = s.sum fun srv => srv.clients.size := hs
    _ = (s.put i u).sum fun srv => srv.clients.size := by rw [Nat.add_right_cancel hsum]

/-- `ClearClients` removes the clients of a map without counting it. -/
theorem CountExact.put_cleared (hs : s.CountExact) (hi : s.cellServers[i]? = some srv)
    (hcount : u.counts = s.counts) (hclients : u.srv.clients = .empty) :
    (s.put i u).CountExact ↔ srv.clients.entries = [] := by
  have hsum := sum_put (u := u) hi fun srv => srv.clients.size
  have hempty : u.srv.clients.size = 0 := by rw [hclients]; rfl
  have hexact : s.counts.clientCount = s.sum fun srv => srv.clients.size := hs
  have hput : (s.put i u).counts.clientCount = s.counts.clientCount := by rw [← hcount]; rfl
  rw [CountExact, hput, ← List.length_eq_zero_iff, ← SortedMap.size]
  omega

/-- Every other section counts what it does to the map. -/
theorem CountExact.put_balanced (hs : s.CountExact) (ht : (s.put i u).Owned)
    (hi : s.cellServers[i]? = some srv) (hb : (s.view srv).Balanced u) :
    (s.put i u).CountExact := by
  have hsum := sum_put (u := u) hi fun srv => srv.clients.size
  have hcount := hb.count
  have hexact : s.counts.clientCount = s.sum fun srv => srv.clients.size := hs
  have hview : (s.view srv).counts.clientCount = s.counts.clientCount := rfl
  have hput : (s.put i u).counts.clientCount = u.counts.clientCount := rfl
  rw [hview, hexact] at hcount
  refine ht.countExact_iff.mpr ?_
  rw [hput]
  simp only [view] at hcount
  omega

theorem Stepped.countExact_iff (hst : s.Stepped a t) (ht : t.Owned) (hs : s.CountExact) :
    t.CountExact ↔ s.ClearsNone a := by
  cases hst with
  | refused => exact iff_of_true hs trivial
  | accepted hsock hcount hmin => exact iff_of_true (hs.put hmin.1 rfl rfl) trivial
  | logged => exact iff_of_true hs trivial
  | closed hi => exact iff_of_true (hs.put hi rfl rfl) trivial
  | @worked i sys srv u hi hw =>
    by_cases hpc : srv.pc = .clearClients
    · obtain ⟨hcount, hclients⟩ := hw.cleared hpc
      rw [hs.put_cleared hi hcount hclients]
      refine ⟨fun hempty srv' hi' _ => ?_, fun hnone => hnone srv hi hpc⟩
      obtain rfl : srv = srv' := Option.some.inj (hi.symm.trans hi')
      exact hempty
    · refine iff_of_true (hs.put_balanced ht hi (hw.balanced hpc)) fun srv' hi' hpc' => ?_
      obtain rfl : srv = srv' := Option.some.inj (hi.symm.trans hi')
      exact absurd hpc' hpc

end EasyTcpServer

/-- When the client counter is exact. In every run `_clientCount` is the number of
clients in the maps in every state, exactly when every `ClearClients` of the run finds its
map empty. -/
theorem client_count_iff (h : Handler) (kind : ServerKind) {s₀ s : EasyTcpServer}
    {tr : List (EasyTcpServer × TcpAct)} (hinit : (tcpServer h kind).init s₀)
    (hrun : (tcpServer h kind).Run s₀ tr s) :
    ((∀ x ∈ tr, x.1.CountExact) ∧ s.CountExact) ↔ ∀ x ∈ tr, x.1.ClearsNone x.2 := by
  refine hrun.forall_iff (fun _ _ _ ho hst => EasyTcpServer.Owned.step ho hst)
    (fun _ _ _ ho hs hst => (ho.stepped hst).countExact_iff (ho.step hst) hs) (.init hinit) ?_
  rw [EasyTcpServer.CountExact, EasyTcpServer.sum_init hinit, hinit.2.1]
  · rfl
  · intro srv hclients _
    rw [hclients]
    rfl

/-- A worker whose only client is handed over ends because `select` fails. -/
theorem select_fails : ∃ s₀ tr s, (tcpServer .ignore .select).init s₀ ∧
    (tcpServer .ignore .select).Run s₀ tr s ∧ ¬s.CountExact := by
  let sys : SysCalls := ⟨0, fun _ => true, .fail false, .fail false, fun _ => .fail,
    fun _ => .accept 0⟩
  let acts : List TcpAct := .accept 4 (fun _ => 0) (fun _ => 0) :: List.replicate 6 (.work 0 sys)
  let next? := Machine.next? EasyTcpServer.Kernel (EasyTcpServer.act .ignore) 0
  have heval : (acts.foldlM next? (.newSelect 1 1)).map (fun s =>
      (s.counts.clientCount, s.sum fun srv => srv.clients.size)) = some (1, 0) := by
    decide +kernel
  obtain ⟨tr, s, hrun, -, hstate⟩ := Machine.Run.of_next?_map (tcpServer .ignore .select).init heval
  obtain ⟨hcount, hsum⟩ := Prod.mk.inj hstate
  refine ⟨_, tr, s, EasyTcpServer.newSelect_init _ _ _, hrun, ?_⟩
  rw [EasyTcpServer.CountExact, hcount, hsum]
  decide

/-- After the end of that worker a client is still counted. -/
theorem not_client_count : ¬∀ (h : Handler) (kind : ServerKind) (s₀ s : EasyTcpServer)
    (tr : List (EasyTcpServer × TcpAct)), (tcpServer h kind).init s₀ →
      (tcpServer h kind).Run s₀ tr s → s.CountExact := by
  intro hall
  obtain ⟨s₀, tr, s, hinit, hrun, hs⟩ := select_fails
  exact hs (hall _ _ s₀ s tr hinit hrun)

/-- Its `ClearClients` finds the client in the map. -/
theorem client_count_iff_fails : ∃ s₀ tr s, (tcpServer .ignore .select).init s₀ ∧
    (tcpServer .ignore .select).Run s₀ tr s ∧ ¬∀ x ∈ tr, x.1.ClearsNone x.2 := by
  obtain ⟨s₀, tr, s, hinit, hrun, hs⟩ := select_fails
  exact ⟨s₀, tr, s, hinit, hrun, fun hall =>
    hs ((client_count_iff .ignore .select hinit hrun).mpr hall).2⟩

/-! ## The choice of a worker -/

/-- The loop of `OnRun` is over. -/
def CELLServer.LoopEnded (srv : CELLServer) : Prop :=
  srv.pc = .clearClients ∨ srv.pc = .ended

instance : DecidablePred CELLServer.LoopEnded :=
  fun _ => inferInstanceAs (Decidable (_ ∨ _))

namespace EasyTcpServer

variable {s t : EasyTcpServer} {a : TcpAct} {i : ℕ} {srv : CELLServer} {cSock : SOCKET}

/-- The loop of some worker runs. -/
def SomeRuns (s : EasyTcpServer) : Prop :=
  ∃ srv ∈ s.cellServers, ¬srv.LoopEnded

/-- The new client of an `Accept` goes to a worker whose loop runs, if there is one. -/
def GivesToRunning (s : EasyTcpServer) : TcpAct → Prop
  | .accept cSock sendMem recvMem => s.SomeRuns →
      ∀ t, s.accept cSock sendMem recvMem = .ok t →
        ∀ srv ∈ t.cellServers, s.heap.size ∈ srv.held → ¬srv.LoopEnded
  | _ => True

/-- The loop of the worker `i` runs, and it has fewer clients than each worker before it
whose loop is over, and no more than each behind it. -/
def RunsAhead (s : EasyTcpServer) (i : ℕ) (srv : CELLServer) : Prop :=
  s.cellServers[i]? = some srv ∧ ¬srv.LoopEnded ∧
    ∀ (j : ℕ) srv', s.cellServers[j]? = some srv' → srv'.LoopEnded →
      srv.getClientCount ≤ srv'.getClientCount ∧
      (j < i → srv.getClientCount < srv'.getClientCount)

/-- An `Accept` that admits a client finds a worker that runs ahead, if one runs. -/
def FindsRunning (s : EasyTcpServer) : TcpAct → Prop
  | .accept cSock _ _ => INVALID_SOCKET ≠ cSock → s.counts.clientCount < s.nMaxClient →
      s.SomeRuns → ∃ i srv, s.RunsAhead i srv
  | _ => True

/-- The first worker with the fewest clients runs exactly when one runs ahead. -/
theorem IsMin.running_iff (hmin : s.IsMin i srv) :
    ¬srv.LoopEnded ↔ ∃ i srv, s.RunsAhead i srv := by
  constructor
  · exact fun hrun => ⟨i, srv, hmin.1, hrun, fun j srv' hj _ => hmin.2 j srv' hj⟩
  · rintro ⟨k, r, hk, hrun, hahead⟩ hended
    obtain ⟨hle, hlt⟩ := hahead i srv hmin.1 hended
    obtain ⟨hle', hlt'⟩ := hmin.2 k r hk
    rcases Nat.lt_trichotomy i k with hik | rfl | hki
    · exact absurd hle' (not_le.mpr (hlt hik))
    · rw [hmin.1, Option.some.injEq] at hk
      exact hrun (hk ▸ hended)
    · exact absurd hle (not_le.mpr (hlt' hki))

/-- An `Accept` below the limit gives the client to a worker with the fewest clients. -/
theorem accept_eq (hsock : INVALID_SOCKET ≠ cSock) (hcount : s.counts.clientCount < s.nMaxClient)
    (hne : s.cellServers ≠ []) (sendMem recvMem : ℕ → UInt8) : ∃ i srv, s.IsMin i srv ∧
      s.accept cSock sendMem recvMem = .ok (s.put i ((s.view srv).addClient
        (.new cSock s.nSendBuffSize s.nRecvBuffSize sendMem recvMem))) := by
  obtain ⟨first, rest, hs⟩ := List.exists_cons_of_ne_nil hne
  refine ⟨_, _, minServer_isMin hs, ?_⟩
  rw [accept, if_neg hsock, if_pos hcount]
  dsimp only [Heap.new, addClientToCELLServer]
  split
  · rename_i hnil
    exact absurd hnil hne
  · rename_i first' rest' hs'
    obtain ⟨rfl, -⟩ := List.cons.inj (hs.symm.trans hs')
    rfl

/-- The pointer of the next client is not in use. -/
theorem Owned.size_not_mem (ho : s.Owned) (hmem : srv ∈ s.cellServers) :
    s.heap.size ∉ srv.held := by
  intro hheld
  obtain ⟨c, hc⟩ := (ho.live _).mpr (List.mem_flatMap.mpr ⟨srv, hmem, hheld⟩)
  exact Nat.lt_irrefl _ (Heap.lt_size hc)

theorem Owned.givesToRunning_iff (ho : s.Owned) : s.GivesToRunning a ↔ s.FindsRunning a := by
  cases a with
  | accept cSock sendMem recvMem =>
    constructor
    · intro hgives hsock hcount hruns
      have hne : s.cellServers ≠ [] := by
        obtain ⟨srv, hmem, -⟩ := hruns
        exact List.ne_nil_of_mem hmem
      obtain ⟨i, srv, hmin, haccept⟩ := accept_eq hsock hcount hne sendMem recvMem
      refine hmin.running_iff.mp ?_
      refine hgives hruns _ haccept ((s.view srv).addClient
        (.new cSock s.nSendBuffSize s.nRecvBuffSize sendMem recvMem)).srv ?_ ?_
      · rw [put_eq hmin.1]
        exact List.mem_append_right _ List.mem_cons_self
      · exact List.mem_append_right _ (List.mem_append_right _ List.mem_cons_self)
    · intro hfinds hruns t haccept srv hmem hheld
      cases accept_stepped haccept with
      | refused => exact absurd hheld (ho.size_not_mem hmem)
      | accepted hsock hcount hmin =>
        rcases mem_put hmin.1 hmem with rfl | ⟨hmem, -⟩
        · exact hmin.running_iff.mpr (hfinds hsock hcount hruns)
        · exact absurd hheld (ho.size_not_mem hmem)
  | _ => exact Iff.rfl

end EasyTcpServer

/-- When no client goes to a worker whose loop is over. In every run each new client goes
to a worker whose loop runs, as long as there is one, exactly when each `Accept` of the
run that admits a client then finds one that runs ahead of those whose loop is over. -/
theorem gives_to_running_iff (h : Handler) (kind : ServerKind) {s₀ s : EasyTcpServer}
    {tr : List (EasyTcpServer × TcpAct)} (hinit : (tcpServer h kind).init s₀)
    (hrun : (tcpServer h kind).Run s₀ tr s) :
    (∀ x ∈ tr, x.1.GivesToRunning x.2) ↔ ∀ x ∈ tr, x.1.FindsRunning x.2 := by
  refine forall₂_congr fun x hx => ?_
  obtain ⟨pre, post, hpre, -⟩ := hrun.of_mem hx
  exact (EasyTcpServer.Owned.run hinit hpre).givesToRunning_iff

/-- The first of two workers ends because `select` fails, and gets the next client. -/
theorem first_fails : ∃ s₀ tr s x, (tcpServer .ignore .select).init s₀ ∧
    2 ≤ s₀.cellServers.length ∧ (tcpServer .ignore .select).Run s₀ tr s ∧ x ∈ tr ∧
    ¬x.1.GivesToRunning x.2 := by
  let sys : SysCalls := ⟨0, fun _ => true, .fail false, .fail false, fun _ => .fail,
    fun _ => .accept 0⟩
  let acts : List TcpAct := .accept 4 (fun _ => 0) (fun _ => 0) :: List.replicate 6 (.work 0 sys)
  let next : TcpAct := .accept 5 (fun _ => 0) fun _ => 0
  let next? := Machine.next? EasyTcpServer.Kernel (EasyTcpServer.act .ignore) 0
  have heval : ((acts.foldlM next? (.newSelect 2 10)).bind fun s =>
      (next? s next).map fun t => (s.heap.size, s.cellServers.map CELLServer.pc,
        t.cellServers.map fun srv => (srv.pc, srv.held))) =
      some (1, [.ended, .loop], [(.ended, [1]), (.loop, [])]) := by
    decide +kernel
  obtain ⟨s, hs, hmap⟩ := Option.bind_eq_some_iff.mp heval
  obtain ⟨t, ht, hstate⟩ := Option.map_eq_some_iff.mp hmap
  simp only [Prod.mk.injEq] at hstate
  obtain ⟨hsize, hpcs, hheld⟩ := hstate
  obtain ⟨tr, hrun, -⟩ := Machine.Run.of_next? (tcpServer .ignore .select).init hs
  have hstep := Machine.step_of_next? (tcpServer .ignore .select).init ht
  refine ⟨_, _, t, (s, next), EasyTcpServer.newSelect_init _ _ _, by decide, hrun.snoc hstep,
    by simp, fun hgives => ?_⟩
  have hruns : s.SomeRuns := by
    obtain ⟨srv, hmem, hpc⟩ : ∃ srv ∈ s.cellServers, srv.pc = .loop :=
      List.mem_map.mp (by rw [hpcs]; simp)
    exact ⟨srv, hmem, by simp [CELLServer.LoopEnded, hpc]⟩
  obtain ⟨srv, hmem, hsrv⟩ : ∃ srv ∈ t.cellServers, (srv.pc, srv.held) = (.ended, [1]) :=
    List.mem_map.mp (by rw [hheld]; simp)
  obtain ⟨hpc, hone⟩ := Prod.mk.inj hsrv
  obtain ⟨-, n, hact⟩ := hstep
  refine hgives hruns t (Option.some.inj hact) srv hmem ?_ (Or.inr hpc)
  rw [hsize, hone]
  exact List.mem_singleton.mpr rfl

/-- A client is given to a worker whose loop is over while another runs. -/
theorem not_gives_to_running : ¬∀ (h : Handler) (kind : ServerKind) (s₀ s : EasyTcpServer)
    (tr : List (EasyTcpServer × TcpAct)), (tcpServer h kind).init s₀ →
      2 ≤ s₀.cellServers.length → (tcpServer h kind).Run s₀ tr s →
      ∀ x ∈ tr, x.1.GivesToRunning x.2 := by
  intro hall
  obtain ⟨s₀, tr, s, x, hinit, hlen, hrun, hx, hgives⟩ := first_fails
  exact hgives (hall _ _ s₀ s tr hinit hlen hrun x hx)

/-- Some `Accept` of that run finds no worker that runs ahead. -/
theorem gives_to_running_iff_fails : ∃ s₀ tr s, (tcpServer .ignore .select).init s₀ ∧
    (tcpServer .ignore .select).Run s₀ tr s ∧ ¬∀ x ∈ tr, x.1.FindsRunning x.2 := by
  obtain ⟨s₀, tr, s, x, hinit, -, hrun, hx, hgives⟩ := first_fails
  exact ⟨s₀, tr, s, hinit, hrun, fun hall =>
    hgives ((gives_to_running_iff .ignore .select hinit hrun).mpr hall x hx)⟩

end CellNet
