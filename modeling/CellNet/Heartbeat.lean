import CellNet.Worker

/-!
# Silent clients

`CheckTime` removes the clients that were silent for too long, and `checkTime_sat` says
exactly which. `OnRun` tests for clients before it and not after it : `begin_nonempty_iff`
says that `DoNetEvents` of a select server looks at `_clients.begin()` of an empty map
as soon as one `CheckTime` removes every client.
-/

namespace CellNet

/-! ## The clients CheckTime leaves -/

namespace ServerState

variable {s t : ServerState} {others : List Ptr}

/-- The time of the client of an entry is not up at `now`. -/
def Survives (s : ServerState) (now : ℤ) (e : SOCKET × Ptr) : Prop :=
  ∃ c, s.heap.get? e.2 = some c ∧ c.dtHeart + (now - s.srv.oldTime) < CLIENT_HREAT_DEAD_TIME

/-- `CheckTime` removes the clients whose time is up, and then sets `_clients_change`. -/
theorem checkTime_sat {E : UB → Prop} (ho : s.Owns others) (now : ℤ) :
    Exec.Sat E (s.checkTime now) fun t =>
      (∀ e, e ∈ t.srv.clients.entries ↔ e ∈ s.srv.clients.entries ∧ s.Survives now e) ∧
      (t.srv.clients = s.srv.clients ∨ t.srv.clientsChange = true) := by
  refine (checkTime_toured ho now).mono fun t ht =>
    ⟨fun e => ?_, ht.shrunk.marked.symm.imp_left And.left⟩
  rw [ht.mem_iff ho]
  refine and_congr_right fun he => ?_
  obtain ⟨c, hc⟩ := ho.get? (CELLServer.mem_held_of_entry (k := e.1) (p := e.2) he)
  have hv := ht.swept.visit e.2 (List.mem_map.mpr ⟨e, he, rfl⟩)
  have hget : t.heap.get? e.2 = (t.table e.2).1 := rfl
  rw [table_eq hc] at hv
  rw [hget]
  constructor
  · rintro ⟨c', hc'⟩
    refine ⟨c, hc, ?_⟩
    generalize t.table e.2 = x at hv hc'
    cases hv with
    | present hR =>
      cases hR with
      | dead => simp at hc'
      | alive halive => exact halive
  · rintro ⟨c', hc', halive⟩
    rw [hc, Option.some.injEq] at hc'
    subst hc'
    generalize t.table e.2 = x at hv
    cases hv with
    | present hR =>
      cases hR with
      | dead hdead => omega
      | alive => exact ⟨_, rfl⟩

end ServerState

/-! ## The begin of the map -/

namespace ServerState

variable {s t : ServerState} {h : Handler} {kind : ServerKind}

/-- `DoNetEvents` of a select server is about to evaluate `_clients.begin()->second`. -/
def EvaluatesBegin (s : ServerState) : Prop :=
  s.srv.pc = .doNetEvents ∧ s.srv.kind = .select ∧ s.srv.clientsChange = true

/-- `_clients` is not empty where its begin is evaluated. -/
def BeginNonempty (s : ServerState) : Prop :=
  s.EvaluatesBegin → s.srv.clients.entries ≠ []

/-- The action does not remove every client in `CheckTime`. -/
def LeavesClient (s : ServerState) : ServerAct → Prop
  | .work sys => s.srv.pc = .checkTime → ∃ e ∈ s.srv.clients.entries, s.Survives sys.now e
  | _ => True

/-- The evaluation is undefined on an empty map. -/
theorem EvaluatesBegin.work_derefEnd (hs : s.EvaluatesBegin) (hempty : s.srv.clients.entries = [])
    (n : ℕ) (sys : SysCalls) : s.work h n sys = some (.error .derefEnd) := by
  obtain ⟨hpc, hkind, hchange⟩ := hs
  cases hd : s.srv.derived with
  | epoll d => simp [CELLServer.kind, hd] at hkind
  | select d => simp [work, hpc, doNetEvents, hd, selectNetEvents, readSet, hchange, hempty]

/-- The invariant of a select server. -/
structure SelectOwned (s : ServerState) : Prop extends Owned s where
  kind : s.srv.kind = .select
  checkTime : s.srv.pc = .checkTime → s.srv.clients.entries ≠ []

theorem SelectOwned.init (hinit : (server h .select).init s) : s.SelectOwned := by
  have howned := Owned.init hinit
  obtain ⟨-, -, i, oldTime, derived, hnew, hsrv⟩ := hinit
  refine ⟨howned, ?_, by simp [hsrv, CELLServer.new]⟩
  cases derived with
  | select d => simp [hsrv, CELLServer.new, CELLServer.kind]
  | epoll d => exact absurd hnew not_false

theorem SelectOwned.step {a : ServerAct} (hs : s.SelectOwned)
    (hstep : (server h .select).step s a (.ok t)) : t.SelectOwned := by
  have howned := hs.toOwned.step hstep
  cases hs.toOwned.stepped hstep with
  | added => exact ⟨howned, hs.kind, hs.checkTime⟩
  | closed => exact ⟨howned, hs.kind, hs.checkTime⟩
  | worked hwork hw => exact ⟨howned, hw.kind.trans hs.kind, work_checkTime hwork⟩

/-- `CheckTime` leads to an evaluation on an empty map exactly when it removes every
client. -/
theorem SelectOwned.checkTime_beginNonempty_iff {now : ℤ} (hs : s.SelectOwned)
    (hpc : s.srv.pc = .checkTime) (ht : s.checkTime now = .ok t) :
    (t.goto .doNetEvents).BeginNonempty ↔ ∃ e ∈ s.srv.clients.entries, s.Survives now e := by
  have hcheck := checkTime_sat (E := fun _ => True) hs.owns now
  have hkept := checkTime_toured (E := fun _ => True) hs.owns now
  rw [ht] at hcheck hkept
  obtain ⟨hmem, hchange⟩ := hcheck
  have hkind : t.srv.kind = .select := hkept.kind.trans hs.kind
  constructor
  · intro hbegin
    by_contra hnone
    have hempty : t.srv.clients.entries = [] := by
      refine List.eq_nil_iff_forall_not_mem.mpr fun e he => hnone ?_
      exact ⟨e, (hmem e).mp he⟩
    refine hbegin ⟨rfl, hkind, hchange.resolve_left fun heq => ?_⟩ hempty
    exact hs.checkTime hpc (heq ▸ hempty)
  · rintro ⟨e, he, hsurvives⟩ _ hempty
    have hleft := (hmem e).mpr ⟨he, hsurvives⟩
    exact List.not_mem_nil (hempty ▸ hleft)

/-- No other step leads to an evaluation. -/
theorem SelectOwned.beginNonempty_iff {a : ServerAct} (hs : s.SelectOwned)
    (hq : s.BeginNonempty) (hstep : (server h .select).step s a (.ok t)) :
    t.BeginNonempty ↔ s.LeavesClient a := by
  cases hs.toOwned.stepped hstep with
  | added => exact iff_of_true hq trivial
  | closed => exact iff_of_true hq trivial
  | worked hwork =>
    by_cases hpc : s.srv.pc = .checkTime
    · simp only [work, hpc, Option.some.injEq] at hwork
      obtain ⟨u, hu, rfl⟩ := Exec.map_eq_ok.mp hwork
      rw [hs.checkTime_beginNonempty_iff hpc hu, LeavesClient, forall_prop_of_true hpc]
    · have hnext := work_next hwork
      refine iff_of_true (fun hbegin => absurd hnext ?_) fun hpc' => absurd hpc' hpc
      rw [hbegin.1]
      cases hs' : s.srv.pc <;> simp_all [PC.next]

end ServerState

/-- When `DoNetEvents` never evaluates the begin of an empty map. In every run of a select
server `_clients` is not empty wherever `_clients.begin()->second` is evaluated, exactly
when every `CheckTime` of the run leaves a client. -/
theorem begin_nonempty_iff (h : Handler) {s₀ s : ServerState}
    {tr : List (ServerState × ServerAct)} (hinit : (server h .select).init s₀)
    (hrun : (server h .select).Run s₀ tr s) :
    ((∀ x ∈ tr, x.1.BeginNonempty) ∧ s.BeginNonempty) ↔ ∀ x ∈ tr, x.1.LeavesClient x.2 := by
  have hs₀ := ServerState.SelectOwned.init hinit
  refine hrun.forall_iff (fun _ _ _ hs hst => ServerState.SelectOwned.step hs hst)
    (fun _ _ _ hs hq hst => hs.beginNonempty_iff hq hst) hs₀ fun hbegin => ?_
  obtain ⟨-, -, i, oldTime, derived, -, hsrv⟩ := hinit
  simp [ServerState.EvaluatesBegin, hsrv, CELLServer.new] at hbegin

/-- A select server whose only client is silent for 60 seconds. -/
theorem silent_client : ∃ s₀ tr s, (server .ignore .select).init s₀ ∧
    (server .ignore .select).Run s₀ tr s ∧
    (s₀.srv.oldTime :: tr.filterMap fun x => x.2.now?).Pairwise (· ≤ ·) ∧
    s.EvaluatesBegin ∧ s.srv.clients.entries = [] := by
  let sys : ℤ → SysCalls := fun now => ⟨now, fun _ => true, .ready [] [], .events [],
    fun _ => .fail, fun _ => .accept 0⟩
  let acts : List ServerAct := [.addClient (.new 3 64 64 (fun _ => 0) fun _ => 0), .work (sys 0),
    .work (sys 0), .work (sys 0), .work (sys 60000)]
  let next? := Machine.next? ServerState.Kernel (ServerState.act .ignore) 0
  have heval : (acts.foldlM next? .newSelect).map (fun s =>
      (s.srv.pc, s.srv.kind, s.srv.clientsChange, s.srv.clients.entries)) =
        some (.doNetEvents, .select, true, []) := by
    decide +kernel
  obtain ⟨tr, s, hrun, hacts, hstate⟩ :=
    Machine.Run.of_next?_map (server .ignore .select).init heval
  have hclock : tr.filterMap (fun x => x.2.now?) = [0, 0, 0, 60000] := by
    rw [← Function.comp_def, ← List.filterMap_map, hacts]
    rfl
  simp only [Prod.mk.injEq] at hstate
  refine ⟨_, tr, s, ServerState.newSelect_init _, hrun, ?_,
    ⟨hstate.1, hstate.2.1, hstate.2.2.1⟩, hstate.2.2.2⟩
  rw [hclock]
  decide

/-- With a silent client the begin of an empty map is evaluated. -/
theorem not_begin_nonempty : ¬∀ (h : Handler) (s₀ s : ServerState)
    (tr : List (ServerState × ServerAct)), (server h .select).init s₀ →
      (server h .select).Run s₀ tr s →
      (s₀.srv.oldTime :: tr.filterMap fun x => x.2.now?).Pairwise (· ≤ ·) →
      s.BeginNonempty := by
  intro hall
  obtain ⟨s₀, tr, s, hinit, hrun, hclock, hbegin, hempty⟩ := silent_client
  exact hall _ s₀ s tr hinit hrun hclock hbegin hempty

/-- Some `CheckTime` of that run removes every client, and the next section is undefined. -/
theorem begin_nonempty_iff_silent : ∃ s₀ tr s, (server .ignore .select).init s₀ ∧
    (server .ignore .select).Run s₀ tr s ∧ (¬∀ x ∈ tr, x.1.LeavesClient x.2) ∧
    ∀ n sys, s.work .ignore n sys = some (.error .derefEnd) := by
  obtain ⟨s₀, tr, s, hinit, hrun, -, hbegin, hempty⟩ := silent_client
  refine ⟨s₀, tr, s, hinit, hrun, fun hall => ?_, hbegin.work_derefEnd hempty⟩
  exact ((begin_nonempty_iff .ignore hinit hrun).mpr hall).2 hbegin hempty

end CellNet
