import CellNet.Worker
import Mathlib.Data.Int.Interval

/-!
# The server with its workers

`EasyTcpServer` : one thread accepts connections and gives each to the worker server
with the fewest clients, and the worker threads run as in `server`. The workers share
the heap and the counters. `tcpServer` is all of it as a machine, a section of one
thread at a time in any order.

`Owned` is the invariant of the worker servers together, each the owner of its clients
among the others (`Owned.server`), and `Stepped` lists what a step can do.
-/

namespace CellNet

/-! ## The class -/

/-- An `EasyTcpServer`, with the heap it and its workers use, and the calls of its event
functions. -/
structure EasyTcpServer where
  heap : Heap CELLClient
  counts : NetCounts
  events : List NetEvent
  cellServers : List CELLServer
  sock : SOCKET
  nSendBuffSize : ℤ
  nRecvBuffSize : ℤ
  nMaxClient : ℤ

namespace EasyTcpServer

/-- A worker server with what it shares. -/
def view (s : EasyTcpServer) (srv : CELLServer) : ServerState :=
  ⟨s.heap, s.counts, s.events, srv⟩

/-- The server with its worker `i` in the state `t`. -/
def put (s : EasyTcpServer) (i : ℕ) (t : ServerState) : EasyTcpServer :=
  { s with
    heap := t.heap
    counts := t.counts
    events := t.events
    cellServers := s.cellServers.set i t.srv }

/-- The workers `Start` makes, each from the clock at its creation and the members of its
subclass. -/
def start (new : List (ℤ × Derived)) : List CELLServer :=
  new.zipIdx.map fun x => .new (x.2 + 1) x.1.1 x.1.2

/-- The search of `addClientToCELLServer`, which starts with the server `first`. -/
def minServer (first : CELLServer) (servers : List CELLServer) : CELLServer × ℕ :=
  servers.zipIdx.foldl (fun pMin p =>
    if p.1.getClientCount < pMin.1.getClientCount then p else pMin) (first, 0)

/-- `addClientToCELLServer`. -/
def addClientToCELLServer (s : EasyTcpServer) (p : Ptr) : Exec EasyTcpServer :=
  match s.cellServers with
  | [] => .error .outOfBounds
  | first :: _ =>
    let (pMinServer, i) := minServer first s.cellServers
    return { s with cellServers := s.cellServers.set i (pMinServer.addClient p) }

/-- `Accept`, where `accept` returns `cSock`. -/
def accept (s : EasyTcpServer) (cSock : SOCKET) (sendMem recvMem : ℕ → UInt8) :
    Exec EasyTcpServer :=
  if INVALID_SOCKET = cSock then return s
  else if s.counts.clientCount < s.nMaxClient then
    let (p, heap) := s.heap.new (.new cSock s.nSendBuffSize s.nRecvBuffSize sendMem recvMem)
    addClientToCELLServer { s with heap } p
  else return s

/-- `time4msg`, once a second is over. -/
def time4msg (s : EasyTcpServer) : EasyTcpServer :=
  { s with counts := { s.counts with recvCount := 0, msgCount := 0 } }

/-- A step of the worker `i`. -/
def onServer (s : EasyTcpServer) (i : ℕ) (f : ServerState → Option (Exec ServerState)) :
    Option (Exec EasyTcpServer) :=
  match s.cellServers[i]? with
  | some srv => (f (s.view srv)).map (s.put i <$> ·)
  | none => none

end EasyTcpServer

/-! ## The machine -/

/-- What can happen to the server. -/
inductive TcpAct
  /-- `Accept`, of the descriptor `cSock`. -/
  | accept (cSock : SOCKET) (sendMem recvMem : ℕ → UInt8)
  /-- The counters are logged. -/
  | time4msg
  /-- `Close` of the worker `i`. -/
  | close (i : ℕ)
  /-- The next section of the worker `i`. -/
  | work (i : ℕ) (sys : SysCalls)

namespace EasyTcpServer

/-- One action, in which a loop ends after at most `n` tests. -/
def act (h : Handler) (n : ℕ) (s : EasyTcpServer) : TcpAct → Option (Exec EasyTcpServer)
  | .accept cSock sendMem recvMem => some (s.accept cSock sendMem recvMem)
  | .time4msg => some (.ok s.time4msg)
  | .close i => s.onServer i fun t => some (.ok t.close)
  | .work i sys => s.onServer i fun t => t.work h n sys

/-- A descriptor is not negative and is an `int`. -/
def IsFd (fd : SOCKET) : Prop :=
  0 ≤ fd ∧ fd < 2147483648

instance (fd : SOCKET) : Decidable (IsFd fd) :=
  inferInstanceAs (Decidable (_ ∧ _))

/-- What the kernel promises for an action. A descriptor it returns is not in use. -/
def Kernel (s : EasyTcpServer) : TcpAct → Prop
  | .accept cSock _ _ => INVALID_SOCKET ≠ cSock →
      IsFd cSock ∧ cSock ≠ s.sock ∧ ServerState.Unused s.heap cSock
  | .work i sys => ∀ srv ∈ s.cellServers[i]?, (s.view srv).Reports sys
  | _ => True

instance (s : EasyTcpServer) : (a : TcpAct) → Decidable (s.Kernel a)
  | .accept _ _ _ => inferInstanceAs (Decidable (_ → _))
  | .time4msg => inferInstanceAs (Decidable True)
  | .close _ => inferInstanceAs (Decidable True)
  | .work _ _ => inferInstanceAs (Decidable (∀ _ ∈ _, _))

end EasyTcpServer

/-- A started server with workers of the subclass `kind` and the handler `h`. -/
def tcpServer (h : Handler) (kind : ServerKind) : Machine EasyTcpServer TcpAct UB :=
  .ofFn (fun s => s.heap = .empty ∧ s.counts = .zero ∧ s.events = [] ∧ EasyTcpServer.IsFd s.sock ∧
    ∃ new, (∀ x ∈ new, Derived.IsNew kind x.2) ∧ s.cellServers = EasyTcpServer.start new)
    EasyTcpServer.Kernel (EasyTcpServer.act h)

namespace EasyTcpServer

variable {s t : EasyTcpServer} {i : ℕ} {srv : CELLServer} {u : ServerState} {h : Handler}
  {kind : ServerKind}

/-! ## The fewest clients -/

/-- The worker `i` has the fewest clients, and is the first with so few. -/
def IsMin (s : EasyTcpServer) (i : ℕ) (srv : CELLServer) : Prop :=
  s.cellServers[i]? = some srv ∧ ∀ j srv', s.cellServers[j]? = some srv' →
    srv.getClientCount ≤ srv'.getClientCount ∧
    (j < i → srv.getClientCount < srv'.getClientCount)

/-- The search from `m` through `xs` ends at the first of the least elements. -/
theorem foldl_min {α : Type} (f : α → ℕ) : ∀ {xs : List (α × ℕ)} {m : α × ℕ},
    (m :: xs).Pairwise (fun x y => x.2 ≤ y.2) →
    let r := xs.foldl (fun pMin p => if f p.1 < f pMin.1 then p else pMin) m
    r ∈ m :: xs ∧ ∀ x ∈ m :: xs, f r.1 ≤ f x.1 ∧ (x.2 < r.2 → f r.1 < f x.1)
  | [], m, _ => by simp
  | x :: ys, m, hsorted => by
    obtain ⟨hm, hys⟩ := List.pairwise_cons.mp hsorted
    rw [List.foldl_cons]
    split
    · rename_i hlt
      obtain ⟨hmem, hmin⟩ := foldl_min f hys
      have hx := (hmin x List.mem_cons_self).1
      refine ⟨List.mem_cons_of_mem _ hmem, fun y hy => ?_⟩
      rcases List.mem_cons.mp hy with rfl | hy
      · exact ⟨by omega, fun _ => by omega⟩
      · exact hmin y hy
    · rename_i hle
      have hsub : (m :: ys).Pairwise fun x y => x.2 ≤ y.2 :=
        hsorted.sublist ((List.sublist_cons_self x ys).cons_cons m)
      obtain ⟨hmem, hmin⟩ := foldl_min f hsub
      have hm' := hmin m List.mem_cons_self
      have hmx := hm x List.mem_cons_self
      refine ⟨?_, fun y hy => ?_⟩
      · rcases List.mem_cons.mp hmem with heq | hmem
        · exact List.mem_cons.mpr (Or.inl heq)
        · exact List.mem_cons_of_mem _ (List.mem_cons_of_mem _ hmem)
      · rcases List.mem_cons.mp hy with rfl | hy
        · exact hm'
        rcases List.mem_cons.mp hy with rfl | hy
        · refine ⟨by omega, fun hlt => ?_⟩
          have := hm'.2 (by omega)
          omega
        · exact hmin y (List.mem_cons_of_mem _ hy)

/-- The search ends at the first server with the fewest clients. -/
theorem minServer_isMin {first : CELLServer} {rest : List CELLServer}
    (hs : s.cellServers = first :: rest) :
    s.IsMin (minServer first s.cellServers).2 (minServer first s.cellServers).1 := by
  have hzip : (s.cellServers.zipIdx).Pairwise fun x y => x.2 ≤ y.2 := by
    refine (List.pairwise_map (f := Prod.snd) (R := (· ≤ ·))).mp ?_
    rw [List.zipIdx_map_snd]
    exact List.pairwise_le_range'
  have hsorted : ((first, 0) :: s.cellServers.zipIdx).Pairwise fun x y => x.2 ≤ y.2 :=
    List.pairwise_cons.mpr ⟨fun _ _ => Nat.zero_le _, hzip⟩
  obtain ⟨hmem, hmin⟩ := foldl_min CELLServer.getClientCount hsorted
  have hfirst : (first, 0) ∈ s.cellServers.zipIdx := by
    rw [List.mk_mem_zipIdx_iff_getElem?, hs]
    rfl
  have hres : minServer first s.cellServers ∈ s.cellServers.zipIdx := by
    rcases List.mem_cons.mp hmem with heq | hmem
    · rw [minServer, heq]
      exact hfirst
    · exact hmem
  refine ⟨List.mk_mem_zipIdx_iff_getElem?.mp hres, fun j srv' hj => ?_⟩
  exact hmin (srv', j) (List.mem_cons_of_mem _ (List.mk_mem_zipIdx_iff_getElem?.mpr hj))

/-! ## Ownership -/

/-- The clients of all workers. -/
def held (s : EasyTcpServer) : List Ptr :=
  s.cellServers.flatMap CELLServer.held

/-- The clients of the workers other than `i`. -/
def others (s : EasyTcpServer) (i : ℕ) : List Ptr :=
  (s.cellServers.take i).flatMap CELLServer.held ++
    (s.cellServers.drop (i + 1)).flatMap CELLServer.held

/-- The undeleted clients are those of the workers, with descriptors of their own. -/
structure Owned (s : EasyTcpServer) : Prop where
  nodup : s.held.Nodup
  live : ∀ p, (∃ c, s.heap.get? p = some c) ↔ p ∈ s.held
  keyed : ∀ srv ∈ s.cellServers, ∀ k p, (k, p) ∈ srv.clients.entries →
    ∃ c, s.heap.get? p = some c ∧ c.sockfd = k
  registered : ∀ srv ∈ s.cellServers, ∀ x ∈ srv.registered,
    (x.1, x.2.ptr) ∈ srv.clients.entries
  distinct : ServerState.Distinct s.heap
  sockfd : ∀ p c, s.heap.get? p = some c → IsFd c.sockfd ∧ c.sockfd ≠ s.sock
  sock : IsFd s.sock
  int : int32 s.counts.clientCount = s.counts.clientCount

theorem cellServers_eq (hi : s.cellServers[i]? = some srv) :
    s.cellServers = s.cellServers.take i ++ srv :: s.cellServers.drop (i + 1) := by
  obtain ⟨hlt, rfl⟩ := List.getElem?_eq_some_iff.mp hi
  rw [← List.drop_eq_getElem_cons hlt, List.take_append_drop]

theorem put_eq (hi : s.cellServers[i]? = some srv) : (s.put i u).cellServers =
    s.cellServers.take i ++ u.srv :: s.cellServers.drop (i + 1) := by
  obtain ⟨hlt, -⟩ := List.getElem?_eq_some_iff.mp hi
  rw [put, List.set_eq_take_append_cons_drop, if_pos hlt]

theorem getElem?_put (hi : s.cellServers[i]? = some srv) (j : ℕ) :
    (s.put i u).cellServers[j]? = if i = j then some u.srv else s.cellServers[j]? := by
  obtain ⟨hlt, -⟩ := List.getElem?_eq_some_iff.mp hi
  rw [put, List.getElem?_set]
  split <;> rfl

/-- A worker that changed is the only one that did. -/
theorem mem_put (hi : s.cellServers[i]? = some srv) {srv' : CELLServer}
    (hmem : srv' ∈ (s.put i u).cellServers) : srv' = u.srv ∨
      srv' ∈ s.cellServers ∧ ∀ p ∈ srv'.held, p ∈ s.others i := by
  rw [put_eq hi, List.mem_append, List.mem_cons] at hmem
  rw [cellServers_eq hi]
  simp only [others, List.mem_append, List.mem_flatMap, List.mem_cons]
  rcases hmem with hmem | rfl | hmem
  · exact Or.inr ⟨Or.inl hmem, fun p hp => Or.inl ⟨srv', hmem, hp⟩⟩
  · exact Or.inl rfl
  · exact Or.inr ⟨Or.inr (Or.inr hmem), fun p hp => Or.inr ⟨srv', hmem, hp⟩⟩

theorem flatMap_held_perm (xs ys : List CELLServer) (srv : CELLServer) :
    ((xs ++ srv :: ys).flatMap CELLServer.held).Perm
      (srv.held ++ (xs.flatMap CELLServer.held ++ ys.flatMap CELLServer.held)) := by
  rw [List.flatMap_append, List.flatMap_cons]
  exact List.perm_append_comm_assoc _ _ _

theorem held_perm (hi : s.cellServers[i]? = some srv) :
    s.held.Perm (srv.held ++ s.others i) := by
  have hperm := flatMap_held_perm (s.cellServers.take i) (s.cellServers.drop (i + 1)) srv
  rwa [← cellServers_eq hi] at hperm

theorem held_put_perm (hi : s.cellServers[i]? = some srv) :
    (s.put i u).held.Perm (u.srv.held ++ s.others i) := by
  rw [held, put_eq hi]
  exact flatMap_held_perm _ _ _

/-- A worker starts without clients. -/
theorem mem_init (hinit : (tcpServer h kind).init s) (hmem : srv ∈ s.cellServers) :
    srv.clients = .empty ∧ srv.clientsBuff = [] ∧ srv.registered = [] := by
  obtain ⟨-, -, -, -, new, hnew, hservers⟩ := hinit
  rw [hservers] at hmem
  obtain ⟨⟨x, n⟩, hx, rfl⟩ := List.mem_map.mp hmem
  exact ⟨rfl, rfl, (hnew x (List.fst_mem_of_mem_zipIdx hx)).registered _ _⟩

namespace Owned

/-- A worker owns its clients among the others. -/
theorem server (ho : s.Owned) (hi : s.cellServers[i]? = some srv) :
    (s.view srv).Owns (s.others i) where
  nodup := (held_perm hi).nodup_iff.mp ho.nodup
  live p := (ho.live p).trans (held_perm hi).mem_iff
  keyed := ho.keyed srv (List.mem_of_getElem? hi)
  registered := ho.registered srv (List.mem_of_getElem? hi)

/-- A worker may change as long as it leaves the clients of the others alone. -/
theorem put (ho : s.Owned) (hi : s.cellServers[i]? = some srv) (hu : u.Owns (s.others i))
    (hframe : ∀ p ∈ s.others i, u.heap.get? p = s.heap.get? p)
    (hdistinct : ServerState.Distinct u.heap)
    (hsockfd : ∀ p c, u.heap.get? p = some c → IsFd c.sockfd ∧ c.sockfd ≠ s.sock)
    (hint : int32 u.counts.clientCount = u.counts.clientCount) : (s.put i u).Owned where
  nodup := (held_put_perm hi).nodup_iff.mpr hu.nodup
  live p := (hu.live p).trans (held_put_perm hi).mem_iff.symm
  keyed srv' hmem k p hp := by
    rcases mem_put hi hmem with rfl | ⟨hmem, hothers⟩
    · exact hu.keyed k p hp
    · obtain ⟨c, hc, hk⟩ := ho.keyed srv' hmem k p hp
      exact ⟨c, (hframe p (hothers p (CELLServer.mem_held_of_entry hp))).trans hc, hk⟩
  registered srv' hmem := by
    rcases mem_put hi hmem with rfl | ⟨hmem, -⟩
    · exact hu.registered
    · exact ho.registered srv' hmem
  distinct := hdistinct
  sockfd := hsockfd
  sock := ho.sock
  int := hint

theorem put_worked (ho : s.Owned) (hi : s.cellServers[i]? = some srv)
    (hw : (s.view srv).Worked u (s.others i)) : (s.put i u).Owned := by
  refine ho.put hi hw.owns hw.frame (hw.distinct ho.distinct) (fun p c hc => ?_) ?_
  · obtain ⟨c₀, hc₀, hfd⟩ := hw.old p c hc
    rw [hfd]
    exact ho.sockfd p c₀ hc₀
  · by_cases hpc : srv.pc = .clearClients
    · rw [(hw.cleared hpc).1]
      exact ho.int
    · exact (hw.balanced hpc).int ho.int

theorem put_addClient (ho : s.Owned) (hi : s.cellServers[i]? = some srv) {c : CELLClient}
    (hfd : IsFd c.sockfd) (hsock : c.sockfd ≠ s.sock)
    (hunused : ServerState.Unused s.heap c.sockfd) :
    (s.put i ((s.view srv).addClient c)).Owned := by
  refine ho.put hi ((ho.server hi).addClient c) (fun p hp => ?_) (ho.distinct.new hunused)
    (fun p d hd => ?_) ho.int
  · obtain ⟨d, hd⟩ := ((ho.server hi).live p).mpr (List.mem_append_right _ hp)
    exact Heap.get?_new.trans (if_neg (Nat.ne_of_lt (Heap.lt_size hd)))
  · have hd' := (Heap.get?_new (q := p)).symm.trans hd
    split at hd'
    · obtain rfl := Option.some.inj hd'
      exact ⟨hfd, hsock⟩
    · exact ho.sockfd p d hd'

theorem init (hinit : (tcpServer h kind).init s) : s.Owned := by
  have hnew := fun srv (hmem : srv ∈ s.cellServers) => mem_init hinit hmem
  obtain ⟨hheap, hcounts, -, hsock, -⟩ := hinit
  have hheld : s.held = [] := by
    refine List.flatMap_eq_nil_iff.mpr fun srv hmem => ?_
    obtain ⟨hclients, hbuff, -⟩ := hnew srv hmem
    simp [CELLServer.held, hclients, hbuff]
  refine ⟨?_, fun p => ?_, fun srv hmem k p hp => ?_, fun srv hmem x hx => ?_,
    fun p q c d hp => ?_, fun p c hp => ?_, hsock, ?_⟩
  · simp [hheld]
  · simp [hheap, hheld]
  · simp [(hnew srv hmem).1] at hp
  · simp [(hnew srv hmem).2.2] at hx
  · simp [hheap] at hp
  · simp [hheap] at hp
  · rw [hcounts]
    exact int32_eq (by decide) (by decide)

end Owned

/-! ## Steps -/

/-- What an action does. -/
inductive Stepped (s : EasyTcpServer) : TcpAct → EasyTcpServer → Prop
  | refused {cSock : SOCKET} {sendMem recvMem : ℕ → UInt8}
    (h : INVALID_SOCKET ≠ cSock → s.nMaxClient ≤ s.counts.clientCount) :
    Stepped s (.accept cSock sendMem recvMem) s
  | accepted {cSock : SOCKET} {sendMem recvMem : ℕ → UInt8} {i : ℕ} {srv : CELLServer}
    (hsock : INVALID_SOCKET ≠ cSock) (hcount : s.counts.clientCount < s.nMaxClient)
    (hmin : s.IsMin i srv) :
    Stepped s (.accept cSock sendMem recvMem) (s.put i ((s.view srv).addClient
      (.new cSock s.nSendBuffSize s.nRecvBuffSize sendMem recvMem)))
  | logged : Stepped s .time4msg s.time4msg
  | closed {i : ℕ} {srv : CELLServer} (hi : s.cellServers[i]? = some srv) :
    Stepped s (.close i) (s.put i (s.view srv).close)
  | worked {i : ℕ} {sys : SysCalls} {srv : CELLServer} {u : ServerState}
    (hi : s.cellServers[i]? = some srv) (hw : (s.view srv).Worked u (s.others i)) :
    Stepped s (.work i sys) (s.put i u)

theorem onServer_eq_ok {f : ServerState → Option (Exec ServerState)}
    (hf : s.onServer i f = some (.ok t)) :
    ∃ srv u, s.cellServers[i]? = some srv ∧ f (s.view srv) = some (.ok u) ∧ t = s.put i u := by
  unfold onServer at hf
  split at hf
  · rename_i srv hi
    obtain ⟨x, hx, hmap⟩ := Option.map_eq_some_iff.mp hf
    obtain ⟨u, rfl, rfl⟩ := Exec.map_eq_ok.mp hmap
    exact ⟨srv, u, hi, hx, rfl⟩
  · simp at hf

theorem accept_stepped {cSock : SOCKET} {sendMem recvMem : ℕ → UInt8}
    (hok : s.accept cSock sendMem recvMem = .ok t) :
    s.Stepped (.accept cSock sendMem recvMem) t := by
  unfold accept at hok
  split at hok
  · obtain rfl := Except.ok.inj hok
    exact .refused fun hne => absurd ‹_› hne
  split at hok
  · rename_i hsock hcount
    dsimp only [Heap.new, addClientToCELLServer] at hok
    split at hok
    · simp at hok
    · rename_i first rest hs
      obtain rfl := Except.ok.inj hok
      exact .accepted hsock hcount (minServer_isMin hs)
  · rename_i hcount
    obtain rfl := Except.ok.inj hok
    exact .refused fun _ => not_lt.mp hcount

/-- What a step of the worker `i` does. -/
theorem Owned.work_step (ho : s.Owned) {sys : SysCalls}
    (hstep : (tcpServer h kind).step s (.work i sys) (.ok t)) : ∃ srv u n,
      s.cellServers[i]? = some srv ∧ (s.view srv).work h n sys = some (.ok u) ∧
      (s.view srv).Ran sys (s.others i) u ∧ t = s.put i u := by
  obtain ⟨hk, n, hact⟩ := hstep
  rw [act] at hact
  obtain ⟨srv, u, hi, hu, rfl⟩ := onServer_eq_ok hact
  have hran : (s.view srv).Ran sys (s.others i) u := ServerState.work_ran (E := fun _ => True)
    trivial trivial h (ho.server hi) ho.distinct (hk srv hi) hu
  exact ⟨srv, u, n, hi, hu, hran, rfl⟩

theorem Owned.stepped {a : TcpAct} (ho : s.Owned) (hstep : (tcpServer h kind).step s a (.ok t)) :
    s.Stepped a t := by
  obtain ⟨hk, n, hact⟩ := hstep
  cases a with
  | accept cSock sendMem recvMem => exact accept_stepped (Option.some.inj hact)
  | time4msg =>
    obtain rfl := Except.ok.inj (Option.some.inj hact)
    exact .logged
  | close i =>
    rw [act] at hact
    obtain ⟨srv, u, hi, hu, rfl⟩ := onServer_eq_ok hact
    obtain rfl := Except.ok.inj (Option.some.inj hu)
    exact .closed hi
  | work i sys =>
    rw [act] at hact
    obtain ⟨srv, u, hi, hu, rfl⟩ := onServer_eq_ok hact
    refine .worked hi ?_
    exact ServerState.work_sat (E := fun _ => True) trivial trivial h (ho.server hi) ho.distinct
      (hk srv hi) hu

theorem Owned.step {a : TcpAct} (ho : s.Owned) (hstep : (tcpServer h kind).step s a (.ok t)) :
    t.Owned := by
  cases ho.stepped hstep with
  | refused => exact ho
  | accepted hsock hcount hmin =>
    obtain ⟨hfd, hne, hunused⟩ := hstep.1 hsock
    exact ho.put_addClient hmin.1 hfd hne hunused
  | logged => exact ⟨ho.nodup, ho.live, ho.keyed, ho.registered, ho.distinct, ho.sockfd, ho.sock,
      ho.int⟩
  | closed hi =>
    have hs := ho.server hi
    exact ho.put hi ⟨hs.nodup, hs.live, hs.keyed, hs.registered⟩ (fun _ _ => rfl) ho.distinct
      ho.sockfd ho.int
  | worked hi hw => exact ho.put_worked hi hw

/-- The workers of a run own their clients. -/
theorem Owned.run {s₀ : EasyTcpServer} {tr : List (EasyTcpServer × TcpAct)}
    (hinit : (tcpServer h kind).init s₀) (hrun : (tcpServer h kind).Run s₀ tr s) : s.Owned :=
  hrun.invariant (fun _ _ _ ho hst => Owned.step ho hst) (.init hinit)

end EasyTcpServer

end CellNet
