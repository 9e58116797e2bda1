import CellNet.Machine
import CellNet.Sections

/-!
# A worker server over whole runs

`server` is a worker server as a machine : another thread adds clients and closes the
server, its own thread takes one section after the other. What the kernel promises
(`Kernel`) is part of it : `accept` returns a descriptor no undeleted client holds, and
`epoll_wait` reports each registered client at most once.

`work_sat` collects what the sections do, and `PC.next` is the order they come in. Over
whole runs, `client_ownership` : every client is in exactly one of the buffer, the map
and the deleted clients, and none is used or deleted after its deletion.
-/

namespace CellNet

namespace ServerState

variable {s s' t : ServerState} {others : List Ptr}

/-! ## One section -/

/-- What one section of the thread leaves. -/
structure Worked (s s' : ServerState) (others : List Ptr) : Prop extends Evolves s s' others where
  owns : s'.Owns others
  balanced : s.srv.pc ≠ .clearClients → s.Balanced s'
  cleared : s.srv.pc = .clearClients → s'.counts = s.counts ∧ s'.srv.clients = .empty

theorem Kept.worked (h : s.Kept s' others) (hpc : s.srv.pc ≠ .clearClients) :
    s.Worked s' others :=
  ⟨h.toEvolves, h.owns, fun _ => h.balanced, fun heq => absurd heq hpc⟩

theorem Kept.goto (h : s.Kept s' others) (pc : PC) : s.Kept (s'.goto pc) others :=
  h.trans (.of_eq h.owns rfl rfl rfl rfl rfl h.owns.registered)

/-- What the section at `pc` does. -/
inductive Ran (s : ServerState) (sys : SysCalls) (others : List Ptr) : ServerState → Prop
  | loop (hpc : s.srv.pc = .loop) :
    Ran s sys others (s.goto (if s.srv.isRun then .handOver else .clearClients))
  | handOver (hpc : s.srv.pc = .handOver) {t : ServerState} (h : s.HandedOver t others) :
    Ran s sys others (t.goto .testEmpty)
  | skip (hpc : s.srv.pc = .testEmpty) (hempty : s.srv.clients.entries = []) :
    Ran s sys others { s with srv := { s.srv with oldTime := sys.now, pc := .loop } }
  | busy (hpc : s.srv.pc = .testEmpty) (hne : s.srv.clients.entries ≠ []) :
    Ran s sys others (s.goto .checkTime)
  | checkTime (hpc : s.srv.pc = .checkTime) {t : ServerState}
    (h : s.Toured (CheckEffect (sys.now - s.srv.oldTime)) t others s.srv.clients.values) :
    Ran s sys others (t.goto .doNetEvents)
  | round (hpc : s.srv.pc = .doNetEvents) {t : ServerState} (h : s.Rounded sys t others) :
    Ran s sys others (t.goto .doMsg)
  | stop (hpc : s.srv.pc = .doNetEvents) {t : ServerState} (h : s.Rounded sys t others) :
    Ran s sys others { t with srv := { t.srv with isRun := false, pc := .clearClients } }
  | doMsg (hpc : s.srv.pc = .doMsg) {t : ServerState}
    (h : s.Toured MsgEffect t others s.srv.clients.values) (hsrv : t.srv = s.srv) :
    Ran s sys others (t.goto .loop)
  | clearClients (hpc : s.srv.pc = .clearClients) {t : ServerState} (h : s.Cleared t others) :
    Ran s sys others { t with srv := { t.srv with isRun := false, pc := .ended } }

theorem Ran.worked {sys : SysCalls} (h : s.Ran sys others t) (ho : s.Owns others) :
    s.Worked t others := by
  cases h with
  | loop hpc => exact ((Kept.refl ho).goto _).worked (by simp [hpc])
  | handOver hpc h => exact (h.toKept.goto _).worked (by simp [hpc])
  | skip hpc =>
    exact Kept.worked (.of_eq ho rfl rfl rfl rfl rfl ho.registered) (by simp [hpc])
  | busy hpc => exact ((Kept.refl ho).goto _).worked (by simp [hpc])
  | checkTime hpc h => exact (h.toKept.goto _).worked (by simp [hpc])
  | round hpc h => exact (h.toKept.goto _).worked (by simp [hpc])
  | stop hpc h =>
    refine (h.toKept.trans ?_).worked (by simp [hpc])
    exact .of_eq h.owns rfl rfl rfl rfl rfl h.owns.registered
  | doMsg hpc h => exact (h.toKept.goto _).worked (by simp [hpc])
  | clearClients hpc h =>
    exact ⟨⟨h.old, h.frame, h.size, h.held, h.kind⟩,
      ⟨h.owns.nodup, h.owns.live, h.owns.keyed, h.owns.registered⟩,
      fun hne => absurd hpc hne, fun _ => ⟨h.counts, h.clients⟩⟩

section Work

variable {E : UB → Prop} {sys : SysCalls}

/-- A section does what `Ran` says, and is undefined in two ways at most. -/
theorem work_ran (hE : E .outOfBounds) (hD : E .derefEnd) (h : Handler) {n : ℕ}
    (ho : s.Owns others) (hd : Distinct s.heap) (hr : s.Reports sys) {r : Exec ServerState}
    (hwork : s.work h n sys = some r) : Exec.Sat E r (s.Ran sys others) := by
  cases hpc : s.srv.pc <;> simp only [work, hpc, Option.some.injEq] at hwork
  case loop =>
    subst hwork
    exact .loop hpc
  case handOver =>
    subst hwork
    exact (handOver_sat ho hd sys).map fun t ht => .handOver hpc ht
  case testEmpty =>
    split at hwork
    · rename_i hempty
      obtain rfl := Option.some.inj hwork
      exact .skip hpc (List.isEmpty_iff.mp hempty)
    · rename_i hne
      obtain rfl := Option.some.inj hwork
      exact .busy hpc fun hempty => hne (List.isEmpty_iff.mpr hempty)
  case checkTime =>
    subst hwork
    exact (checkTime_toured ho sys.now).map fun t ht => .checkTime hpc ht
  case doNetEvents =>
    subst hwork
    have hround := doNetEvents_sat ho hr (.of_allowed hE hD s sys) (Or.inl hE)
    refine hround.bind fun x hx => ?_
    split
    · exact .round hpc hx.2
    · exact .stop hpc hx.2
  case doMsg =>
    obtain ⟨x, hx, rfl⟩ := Option.map_eq_some_iff.mp hwork
    refine (doMsgFrom_toured hE h n _ ho (fun _ he => he) ho.nodup_values hx).map fun t ht => ?_
    exact .doMsg hpc ht.1 ht.2
  case clearClients =>
    subst hwork
    exact (clearClients_sat ho).bind fun t ht => .clearClients hpc ht
  case ended => simp at hwork

/-- Every section keeps the ownership, and is undefined in two ways at most. -/
theorem work_sat (hE : E .outOfBounds) (hD : E .derefEnd) (h : Handler) {n : ℕ}
    (ho : s.Owns others) (hd : Distinct s.heap) (hr : s.Reports sys) {r : Exec ServerState}
    (hwork : s.work h n sys = some r) : Exec.Sat E r fun t => s.Worked t others :=
  (work_ran hE hD h ho hd hr hwork).mono fun _ hran => hran.worked ho

end Work

end ServerState

/-! ## The order of the sections -/

/-- What may follow on a section. -/
def PC.next : PC → List PC
  | .loop => [.handOver, .clearClients]
  | .handOver => [.testEmpty]
  | .testEmpty => [.loop, .checkTime]
  | .checkTime => [.doNetEvents]
  | .doNetEvents => [.doMsg, .clearClients]
  | .doMsg => [.loop]
  | .clearClients => [.ended]
  | .ended => []

namespace ServerState

variable {s s' t : ServerState} {others : List Ptr} {sys : SysCalls} {h : Handler} {n : ℕ}

theorem work_next (hwork : s.work h n sys = some (.ok t)) : t.srv.pc ∈ s.srv.pc.next := by
  cases hpc : s.srv.pc <;> simp only [work, hpc, Option.some.injEq] at hwork
  case loop =>
    obtain rfl := Except.ok.inj hwork
    cases hrun : s.srv.isRun <;> simp [goto, PC.next, hrun]
  case handOver =>
    obtain ⟨u, -, rfl⟩ := Exec.map_eq_ok.mp hwork
    exact List.mem_singleton.mpr rfl
  case testEmpty =>
    split at hwork
    · obtain rfl := Except.ok.inj (Option.some.inj hwork)
      simp [PC.next]
    · obtain rfl := Except.ok.inj (Option.some.inj hwork)
      simp [goto, PC.next]
  case checkTime =>
    obtain ⟨u, -, rfl⟩ := Exec.map_eq_ok.mp hwork
    exact List.mem_singleton.mpr rfl
  case doNetEvents =>
    obtain ⟨⟨ok, u⟩, -, hu⟩ := Fallible.bind_eq_ok.mp hwork
    cases ok
    · obtain rfl := Except.ok.inj hu
      simp [PC.next]
    · obtain rfl := Except.ok.inj hu
      simp [goto, PC.next]
  case doMsg =>
    obtain ⟨x, -, hx⟩ := Option.map_eq_some_iff.mp hwork
    obtain ⟨u, -, rfl⟩ := Exec.map_eq_ok.mp hx
    exact List.mem_singleton.mpr rfl
  case clearClients =>
    obtain ⟨u, -, hu⟩ := Fallible.bind_eq_ok.mp hwork
    obtain rfl := Except.ok.inj hu
    exact List.mem_singleton.mpr rfl
  case ended => simp at hwork

/-- `OnRun` tests for clients before it calls `CheckTime`. -/
theorem work_checkTime (hwork : s.work h n sys = some (.ok t)) (hpc : t.srv.pc = .checkTime) :
    t.srv.clients.entries ≠ [] := by
  have hnext := work_next hwork
  rw [hpc] at hnext
  cases hpc' : s.srv.pc <;> simp [hpc', PC.next] at hnext
  simp only [work, hpc'] at hwork
  split at hwork
  · obtain rfl := Except.ok.inj (Option.some.inj hwork)
    simp at hpc
  · rename_i hne
    obtain rfl := Except.ok.inj (Option.some.inj hwork)
    exact fun h => hne (List.isEmpty_iff.mpr h)

end ServerState

theorem Derived.IsNew.registered {kind : ServerKind} {derived : Derived}
    (h : Derived.IsNew kind derived) (i oldTime : ℤ) :
    (CELLServer.new i oldTime derived).registered = [] := by
  cases kind <;> cases derived <;> simp_all [Derived.IsNew, CELLServer.registered,
    CELLServer.new, CELLEpoll.new]

/-! ## The machine -/

/-- What can happen to a server. -/
inductive ServerAct
  /-- `addClient`, for a new client. -/
  | addClient (c : CELLClient)
  /-- `Close`. -/
  | close
  /-- The next section of the thread. -/
  | work (sys : SysCalls)

/-- The action adds a client. -/
def ServerAct.isAddClient : ServerAct → Bool
  | .addClient _ => true
  | _ => false

/-- The clock reading of the action. -/
def ServerAct.now? : ServerAct → Option ℤ
  | .work sys => some sys.now
  | _ => none

namespace ServerState

variable {s s' t : ServerState} {others : List Ptr} {c : CELLClient}

/-- `addClient(new CELLClient(...))`. -/
def addClient (s : ServerState) (c : CELLClient) : ServerState :=
  let (p, heap) := s.heap.new c
  { s with heap, srv := s.srv.addClient p }

/-- `Close`, up to its wait for the end of the thread. -/
def close (s : ServerState) : ServerState :=
  { s with srv := { s.srv with isRun := false } }

/-- One action, in which a loop ends after at most `n` tests. -/
def act (h : Handler) (n : ℕ) (s : ServerState) : ServerAct → Option (Exec ServerState)
  | .addClient c => some (.ok (s.addClient c))
  | .close => some (.ok s.close)
  | .work sys => s.work h n sys

/-- No undeleted client holds the descriptor `fd`. -/
def Unused (h : Heap CELLClient) (fd : SOCKET) : Prop :=
  ∀ p c, h.get? p = some c → c.sockfd ≠ fd

instance (h : Heap CELLClient) (fd : SOCKET) : Decidable (Unused h fd) :=
  decidable_of_iff _ Heap.forall_get?

/-- What the kernel promises for an action. -/
def Kernel (s : ServerState) : ServerAct → Prop
  | .addClient c => Unused s.heap c.sockfd
  | .close => True
  | .work sys => s.Reports sys

instance (s : ServerState) : (a : ServerAct) → Decidable (s.Kernel a)
  | .addClient c => inferInstanceAs (Decidable (Unused s.heap c.sockfd))
  | .close => inferInstanceAs (Decidable True)
  | .work sys => inferInstanceAs (Decidable (s.Reports sys))

end ServerState

/-- A server of the subclass `kind` with the handler `h`. -/
def server (h : Handler) (kind : ServerKind) : Machine ServerState ServerAct UB :=
  .ofFn (fun s => s.heap = .empty ∧ s.events = [] ∧
    ∃ id oldTime derived, Derived.IsNew kind derived ∧ s.srv = .new id oldTime derived)
    ServerState.Kernel (ServerState.act h)

namespace ServerState

variable {s t : ServerState} {others : List Ptr} {c : CELLClient} {h : Handler}
  {kind : ServerKind}

theorem Owns.addClient (ho : s.Owns others) (c : CELLClient) : (s.addClient c).Owns others := by
  have hget : ∀ q, (s.addClient c).heap.get? q =
      if q = s.heap.size then some c else s.heap.get? q := fun q => Heap.get?_new
  have hnew : s.heap.size ∉ s.srv.held ++ others := by
    intro hmem
    obtain ⟨d, hd⟩ := (ho.live _).mpr hmem
    exact Nat.lt_irrefl _ (Heap.lt_size hd)
  have hheld : ((s.addClient c).srv.held ++ others).Perm
      (s.heap.size :: (s.srv.held ++ others)) := by
    have hbuff : (s.addClient c).srv.held = s.srv.held ++ [s.heap.size] :=
      (List.append_assoc _ _ _).symm
    rw [hbuff, List.append_assoc]
    exact List.perm_middle
  refine ⟨hheld.nodup_iff.mpr (List.nodup_cons.mpr ⟨hnew, ho.nodup⟩), fun p => ?_, fun k p hp => ?_,
    ho.registered⟩
  · rw [hheld.mem_iff, List.mem_cons, ← ho.live p, hget]
    split
    · exact iff_of_true ⟨c, rfl⟩ (Or.inl ‹_›)
    · exact (or_iff_right ‹_›).symm
  · obtain ⟨d, hd, hk⟩ := ho.keyed k p hp
    refine ⟨d, ?_, hk⟩
    rw [hget, if_neg (Nat.ne_of_lt (Heap.lt_size hd)), hd]

theorem Distinct.new {heap : Heap CELLClient} (hd : Distinct heap) (hu : Unused heap c.sockfd) :
    Distinct (heap.new c).2 := by
  intro p q d e hp hq heq
  rw [Heap.get?_new] at hp hq
  split at hp <;> split at hq
  · rename_i hp' hq'
    exact hp'.trans hq'.symm
  · obtain rfl := Option.some.inj hp
    exact absurd heq.symm (hu q e hq)
  · obtain rfl := Option.some.inj hq
    exact absurd heq (hu p d hp)
  · exact hd p q d e hp hq heq

/-- The invariant of a server. -/
structure Owned (s : ServerState) : Prop where
  owns : s.Owns []
  distinct : Distinct s.heap

theorem Owned.init (hinit : (server h kind).init s) : s.Owned := by
  obtain ⟨hheap, -, i, oldTime, derived, hnew, hsrv⟩ := hinit
  have hreg : s.srv.registered = [] := hsrv ▸ hnew.registered i oldTime
  refine ⟨⟨?_, fun p => ?_, fun k p hp => ?_, fun x hx => ?_⟩, fun p q c d hp => ?_⟩
  · simp [hsrv, CELLServer.held, CELLServer.new]
  · simp [hheap, hsrv, CELLServer.new]
  · simp [hsrv, CELLServer.new] at hp
  · simp [hreg] at hx
  · simp [hheap] at hp

/-- What an action does. -/
inductive Stepped (h : Handler) (s : ServerState) : ServerAct → ServerState → Prop
  | added {c : CELLClient} (hunused : Unused s.heap c.sockfd) :
    Stepped h s (.addClient c) (s.addClient c)
  | closed : Stepped h s .close s.close
  | worked {sys : SysCalls} {n : ℕ} {t : ServerState} (hwork : s.work h n sys = some (.ok t))
    (hw : s.Worked t []) (hran : s.Ran sys [] t) : Stepped h s (.work sys) t

theorem Owned.stepped {a : ServerAct} (hs : s.Owned)
    (hstep : (server h kind).step s a (.ok t)) : s.Stepped h a t := by
  obtain ⟨hk, n, hact⟩ := hstep
  cases a with
  | addClient c =>
    obtain rfl := Except.ok.inj (Option.some.inj hact)
    exact .added hk
  | close =>
    obtain rfl := Except.ok.inj (Option.some.inj hact)
    exact .closed
  | work sys =>
    have hran : s.Ran sys [] t :=
      work_ran (E := fun _ => True) trivial trivial h hs.owns hs.distinct hk hact
    exact .worked hact (hran.worked hs.owns) hran

theorem Owned.step {a : ServerAct} (hs : s.Owned) (hstep : (server h kind).step s a (.ok t)) :
    t.Owned := by
  cases hs.stepped hstep with
  | added hunused => exact ⟨hs.owns.addClient _, hs.distinct.new hunused⟩
  | closed =>
    exact ⟨⟨hs.owns.nodup, hs.owns.live, hs.owns.keyed, hs.owns.registered⟩, hs.distinct⟩
  | worked _ hw => exact ⟨hw.owns, hw.distinct hs.distinct⟩

/-- A server stays of its subclass. -/
theorem Owned.kind_run {s₀ : ServerState} {tr : List (ServerState × ServerAct)}
    (hinit : (server h kind).init s₀) (hrun : (server h kind).Run s₀ tr s) :
    s.srv.kind = kind := by
  refine (hrun.invariant (I := fun s => s.Owned ∧ s.srv.kind = kind) ?_
    ⟨.init hinit, ?_⟩).2
  · rintro s a t ⟨hs, hkind⟩ hstep
    refine ⟨hs.step hstep, ?_⟩
    cases hs.stepped hstep with
    | added => exact hkind
    | closed => exact hkind
    | worked _ hw => exact hw.kind.trans hkind
  · obtain ⟨-, -, i, oldTime, derived, hnew, hsrv⟩ := hinit
    rw [hsrv]
    cases kind <;> cases derived <;> first | rfl | exact absurd hnew not_false

/-- A client that was created and is not there any more. -/
def Deleted (s : ServerState) (p : Ptr) : Prop :=
  p < s.heap.size ∧ s.heap.get? p = none

/-- A client is in exactly one of `_clientsBuff`, `_clients` and the deleted clients. -/
def InOnePlace (s : ServerState) (p : Ptr) : Prop :=
  (p ∈ s.srv.clientsBuff ∧ p ∉ s.srv.clients.values ∧ ¬s.Deleted p) ∨
  (p ∉ s.srv.clientsBuff ∧ p ∈ s.srv.clients.values ∧ ¬s.Deleted p) ∨
  (p ∉ s.srv.clientsBuff ∧ p ∉ s.srv.clients.values ∧ s.Deleted p)

theorem Owns.inOnePlace (ho : s.Owns []) {p : Ptr} (hp : p < s.heap.size) : s.InOnePlace p := by
  have hlive : (∃ c, s.heap.get? p = some c) ↔
      p ∈ s.srv.clients.values ∨ p ∈ s.srv.clientsBuff := by
    rw [ho.live p, List.append_nil, CELLServer.held, List.mem_append]
  have hdel : s.Deleted p ↔ ¬∃ c, s.heap.get? p = some c := by
    rw [Deleted, and_iff_right hp, Option.eq_none_iff_forall_ne_some, not_exists]
  have hdisj : p ∈ s.srv.clients.values → p ∉ s.srv.clientsBuff := ho.not_mem_clientsBuff
  unfold InOnePlace
  rw [hdel, hlive]
  tauto

/-- Only `addClient` creates clients. -/
theorem Owned.size_run {tr : List (ServerState × ServerAct)} {s₀ : ServerState} (hs : s₀.Owned)
    (hrun : (server h kind).Run s₀ tr s) :
    s.heap.size = s₀.heap.size + tr.countP fun x => x.2.isAddClient := by
  induction hrun with
  | nil => rfl
  | @snoc t u tr a hrun hstep ih =>
    have hown := hrun.invariant (fun _ _ _ hs hst => Owned.step hs hst) hs
    rw [List.countP_append, ← Nat.add_assoc, ← ih]
    cases hown.stepped hstep with
    | added => exact Heap.size_new
    | closed => rfl
    | worked _ hw => exact hw.size

end ServerState

/-! ## Client ownership -/

/-- Client ownership. After every run each client ever passed to `addClient` is in one
place, the entries of the map are keyed by the descriptors of their clients, and no step
uses a deleted client or deletes one again. -/
theorem client_ownership (h : Handler) (kind : ServerKind) {s₀ s : ServerState}
    {tr : List (ServerState × ServerAct)} (hinit : (server h kind).init s₀)
    (hrun : (server h kind).Run s₀ tr s) :
    s.heap.size = tr.countP (fun x => x.2.isAddClient) ∧
    (∀ p < s.heap.size, s.InOnePlace p) ∧
    s.srv.clientsBuff.Nodup ∧ s.srv.clients.values.Nodup ∧
    (∀ k p, (k, p) ∈ s.srv.clients.entries → ∃ c, s.heap.get? p = some c ∧ c.sockfd = k) ∧
    ∀ a e, (server h kind).step s a (.error e) → e ≠ .useAfterFree ∧ e ≠ .doubleFree := by
  have hs₀ := ServerState.Owned.init hinit
  have hs := hrun.invariant (fun _ _ _ hs hst => ServerState.Owned.step hs hst) hs₀
  have hnodup := hs.owns.nodup
  rw [List.append_nil, CELLServer.held] at hnodup
  refine ⟨?_, fun p hp => hs.owns.inOnePlace hp, (List.nodup_append.mp hnodup).2.1,
    (List.nodup_append.mp hnodup).1, hs.owns.keyed, ?_⟩
  · rw [hs₀.size_run hrun, hinit.1, Heap.size_empty, Nat.zero_add]
  · rintro a e ⟨hk, n, hact⟩
    cases a with
    | addClient c => simp [ServerState.act] at hact
    | close => simp [ServerState.act] at hact
    | work sys =>
      exact ServerState.work_sat (E := fun e => e ≠ .useAfterFree ∧ e ≠ .doubleFree) (by simp)
        (by simp) h hs.owns hs.distinct hk hact

/-- A select server just started. -/
def ServerState.newSelect : ServerState :=
  ⟨.empty, .zero, [], .new 1 0 (.select ⟨.zero, .zero, .zero, 0⟩)⟩

theorem ServerState.newSelect_init (h : Handler) : (server h .select).init newSelect :=
  ⟨rfl, rfl, 1, 0, .select ⟨.zero, .zero, .zero, 0⟩, ⟨rfl, rfl, rfl⟩, rfl⟩

/-- One client has left by a failed read, one is served, and one waits with the
descriptor of the first. -/
theorem client_ownership_reuse : ∃ s₀ tr s, (server .ignore .select).init s₀ ∧
    (server .ignore .select).Run s₀ tr s ∧
    (s.srv.clientsBuff, s.srv.clients.entries, s.heap.size) = ([2], [(4, 1)], 3) ∧
    (∀ p < 3, s.InOnePlace p) ∧
    ∀ a e, (server .ignore .select).step s a (.error e) → e ≠ .useAfterFree ∧ e ≠ .doubleFree := by
  let sys : SysCalls := ⟨0, fun _ => true, .ready [3] [], .events [], fun _ => .fail,
    fun _ => .accept 0⟩
  let client : SOCKET → CELLClient := fun fd => .new fd 64 64 (fun _ => 0) fun _ => 0
  let acts : List ServerAct := [.addClient (client 3), .addClient (client 4), .work sys,
    .work sys, .work sys, .work sys, .work sys, .addClient (client 3)]
  let next? := Machine.next? ServerState.Kernel (ServerState.act .ignore) 10
  have heval : (acts.foldlM next? .newSelect).map (fun s =>
      (s.srv.clientsBuff, s.srv.clients.entries, s.heap.size)) = some ([2], [(4, 1)], 3) := by
    decide +kernel
  obtain ⟨tr, s, hrun, -, hstate⟩ := Machine.Run.of_next?_map (server .ignore .select).init heval
  have hinit := ServerState.newSelect_init .ignore
  obtain ⟨-, hone, -, -, -, hsafe⟩ := client_ownership .ignore .select hinit hrun
  have hsize : s.heap.size = 3 := by simpa using congrArg (fun x => x.2.2) hstate
  exact ⟨_, tr, s, hinit, hrun, hstate, hsize ▸ hone, hsafe⟩

end CellNet
