import CellNet.Admission
import CellNet.SelectCache

/-!
# The order of the event functions

`OnNetJoin` is called for a client in the hand-over, `OnNetRecv` and `OnNetMsg` only for
clients of the map, and `OnNetLeave` where a client is taken out of the map and deleted. So
the calls for one client are in order : `Stage.next` says what may come next, and what a
visit of a client of the map does is in order (`Orderly`). The workers run in any order, but
a section of one is about the clients of that worker only (`Passed.frame`), so the clients
that wait have no events and those of the maps have joined (`Ordered`). A client stays with
its worker (`Ordered.heldBy_step`), and a deleted one has left. The one exception is
`ClearClients` of that worker, which deletes clients and calls nothing.
-/

namespace CellNet

/-! ## Stages -/

/-- What the events about a client make of it. -/
inductive Stage
  /-- `OnNetJoin` was not called yet. -/
  | waiting
  | joined
  /-- `OnNetLeave` was called. -/
  | left
  deriving DecidableEq, Repr

/-- The stage after an event, if the event may come. -/
def Stage.next : Stage → NetEvent → Option Stage
  | waiting, .onNetJoin _ => some joined
  | joined, .onNetRecv _ _ => some joined
  | joined, .onNetMsg _ _ => some joined
  | joined, .onNetLeave _ => some left
  | _, _ => none

/-- The stage behind the events `es`, if they are in order. -/
def NetEvent.stage (es : List NetEvent) : Option Stage :=
  es.foldlM Stage.next .waiting

/-- The stage of a client that was in the map : it is joined while it is there. -/
def Stage.mapped (o : Option CELLClient) : Stage :=
  if o.isSome then joined else left

/-- What the effect does to a client of the map is in order. -/
def Orderly (R : Effect Ptr CELLClient NetEvent) : Prop :=
  ∀ p c o es, R p c o es → es.foldlM Stage.next .joined = some (.mapped o)

section Effects

variable {R S : Effect Ptr CELLClient NetEvent} {p : Ptr}
  {x y : Option CELLClient × List NetEvent}

theorem Orderly.visit (hR : Orderly R) (hv : Visit R p x y)
    (hx : NetEvent.stage x.2 = some (.mapped x.1)) :
    NetEvent.stage y.2 = some (.mapped y.1) := by
  cases hv with
  | absent => exact hx
  | present h =>
    have hjoined : NetEvent.stage _ = some Stage.joined := hx
    rw [NetEvent.stage] at hjoined
    rw [NetEvent.stage, List.foldlM_append, hjoined]
    exact hR _ _ _ _ h

theorem Orderly.andThen (hR : Orderly R) (hS : Orderly S) : Orderly (R.andThen S) := by
  rintro p c o es ⟨o', es', hr, hv⟩
  have hes' := hR p c o' es' hr
  cases hv with
  | absent => exact hes'
  | present h =>
    have hjoined : es'.foldlM Stage.next .joined = some Stage.joined := hes'
    rw [List.foldlM_append, hjoined]
    exact hS _ _ _ _ h

theorem CheckEffect.orderly (dt : ℤ) : Orderly (CheckEffect dt) := by
  intro p c o es h
  cases h <;> rfl

theorem ReadEffect.orderly (ready : Ptr → CELLClient → Prop) (r : Ptr → RecvResult) :
    Orderly fun p c => ReadEffect (ready p c) (r p) p c := by
  intro p c o es h
  cases h <;> rfl

theorem WriteEffect.orderly (ready : Ptr → CELLClient → Prop) (r : Ptr → SendResult) :
    Orderly fun p c => WriteEffect (ready p c) (r p) p c := by
  intro p c o es h
  cases h <;> rfl

theorem ServerState.netEffect_orderly (s : ServerState) (sys : SysCalls) :
    Orderly (s.netEffect sys) :=
  (ReadEffect.orderly _ sys.recv).andThen (WriteEffect.orderly _ sys.send)

theorem ServerState.msgEffect_orderly : Orderly ServerState.MsgEffect := by
  rintro p c o es ⟨c', fs, rfl, rfl, -⟩
  change (fs.map (NetEvent.onNetMsg p)).foldlM Stage.next .joined = some Stage.joined
  induction fs with
  | nil => rfl
  | cons f fs ih => exact ih

end Effects

namespace ServerState

variable {s s' t : ServerState} {others : List Ptr} {sys : SysCalls} {p : Ptr}

/-! ## One section -/

/-- The clients that wait have no events, and those of the map have joined. -/
structure Staged (s : ServerState) : Prop where
  waiting : ∀ p ∈ s.srv.clientsBuff, (s.table p).2 = []
  joined : ∀ p ∈ s.srv.clients.values, NetEvent.stage (s.table p).2 = some .joined

/-- What a section other than `ClearClients` leaves. A client it deletes has left. -/
structure Passed (s t : ServerState) : Prop where
  staged : t.Staged
  gone : ∀ p ∈ s.srv.held, t.heap.get? p = none → NetEvent.stage (t.table p).2 = some .left
  frame : ∀ p ∉ s.srv.held, t.table p = s.table p

theorem Staged.of_eq (h : s.Staged) (htable : t.table = s.table)
    (hclients : t.srv.clients = s.srv.clients) (hbuff : t.srv.clientsBuff = s.srv.clientsBuff) :
    t.Staged := by
  refine ⟨?_, ?_⟩
  · rw [htable, hbuff]
    exact h.waiting
  · rw [htable, hclients]
    exact h.joined

theorem Passed.of_eq (h : s.Passed t) (htable : s'.table = t.table)
    (hclients : s'.srv.clients = t.srv.clients) (hbuff : s'.srv.clientsBuff = t.srv.clientsBuff) :
    s.Passed s' := by
  have hget : ∀ p, s'.heap.get? p = t.heap.get? p :=
    fun p => congrArg Prod.fst (congrFun htable p)
  refine ⟨h.staged.of_eq htable hclients hbuff, fun p hp hnone => ?_, fun p hp => ?_⟩
  · rw [htable]
    exact h.gone p hp ((hget p).symm.trans hnone)
  · rw [htable]
    exact h.frame p hp

/-- The section may start from a state with the same clients. -/
theorem Passed.of_eq_left (h : s.Passed t) (htable : s.table = s'.table)
    (hclients : s.srv.clients = s'.srv.clients) (hbuff : s.srv.clientsBuff = s'.srv.clientsBuff) :
    s'.Passed t := by
  have hheld : s.srv.held = s'.srv.held := by
    rw [CELLServer.held, CELLServer.held, hclients, hbuff]
  refine ⟨h.staged, ?_, ?_⟩
  · rw [← hheld]
    exact h.gone
  · rw [← hheld, ← htable]
    exact h.frame

/-- A section that uses no client. -/
theorem Staged.passed (hs : s.Staged) (ho : s.Owns others) : s.Passed s := by
  refine ⟨hs, fun p hp hnone => ?_, fun _ _ => rfl⟩
  obtain ⟨c, hc⟩ := ho.get? hp
  rw [hc] at hnone
  cases hnone

/-- A loop over the clients of the map with an effect that is in order. -/
theorem Toured.passed {R : Effect Ptr CELLClient NetEvent}
    (h : s.Toured R t others s.srv.clients.values) (hR : Orderly R) (ho : s.Owns others)
    (hs : s.Staged) : s.Passed t := by
  have hmapped : ∀ p ∈ s.srv.clients.values,
      NetEvent.stage (t.table p).2 = some (.mapped (t.heap.get? p)) := by
    intro p hp
    obtain ⟨c, hc⟩ := ho.get? (List.mem_append_left _ hp)
    refine hR.visit (h.swept.visit p hp) ?_
    rw [hs.joined p hp, show (s.table p).1 = some c from hc]
    rfl
  have hframe : ∀ p ∉ s.srv.clients.values, t.table p = s.table p := h.swept.frame
  have hbuff := h.shrunk.clientsBuff
  refine ⟨⟨fun p hp => ?_, fun p hp => ?_⟩, fun p hp hnone => ?_, fun p hp => ?_⟩
  · rw [hbuff] at hp
    rw [hframe p fun hmem => ho.not_mem_clientsBuff hmem hp]
    exact hs.waiting p hp
  · obtain ⟨e, he, rfl⟩ := List.mem_map.mp hp
    obtain ⟨c, hc⟩ := h.owns.get? (List.mem_append_left _ hp)
    rw [hmapped e.2 (List.mem_map.mpr ⟨e, h.shrunk.sub e he, rfl⟩), hc]
    rfl
  · by_cases hmem : p ∈ s.srv.clients.values
    · rw [hmapped p hmem, hnone]
      rfl
    · obtain ⟨c, hc⟩ := ho.get? hp
      have hsame : t.heap.get? p = s.heap.get? p := congrArg Prod.fst (hframe p hmem)
      rw [hsame, hc] at hnone
      cases hnone
  · exact hframe p fun hmem => hp (List.mem_append_left _ hmem)

/-- The clients that waited have joined, and none waits any more. -/
theorem HandedOver.passed (h : s.HandedOver t others) (hbuff : t.srv.clientsBuff = [])
    (ho : s.Owns others) (hs : s.Staged) : s.Passed t := by
  have hjoined : ∀ p ∈ s.srv.clientsBuff, (∃ c, t.heap.get? p = some c) ∧
      NetEvent.stage (t.table p).2 = some .joined := by
    intro p hp
    obtain ⟨c, hc⟩ := ho.get? (List.mem_append_right _ hp)
    have hv := h.swept.visit p hp
    have hrow : s.table p = (some c, []) := by
      rw [← hs.waiting p hp, ← hc]
      rfl
    rw [hrow] at hv
    change (∃ c, (t.table p).1 = some c) ∧ _
    generalize t.table p = y at hv
    cases hv with
    | present hR =>
      obtain ⟨rfl, rfl⟩ := hR
      exact ⟨⟨_, rfl⟩, rfl⟩
  have hframe : ∀ p ∉ s.srv.clientsBuff, t.table p = s.table p := h.swept.frame
  refine ⟨⟨fun p hp => ?_, fun p hp => ?_⟩, fun p hp hnone => ?_, fun p hp => ?_⟩
  · rw [hbuff] at hp
    cases hp
  · by_cases hmem : p ∈ s.srv.clientsBuff
    · exact (hjoined p hmem).2
    · have hheld : p ∈ t.srv.held := List.mem_append_left _ hp
      obtain ⟨c, hc⟩ := h.owns.get? hheld
      have hsame : t.heap.get? p = s.heap.get? p := congrArg Prod.fst (hframe p hmem)
      have hlive := (ho.live p).mp ⟨c, hsame.symm.trans hc⟩
      have hheld' := (List.mem_append.mp hlive).resolve_right (h.owns.not_mem_others hheld)
      rw [hframe p hmem]
      exact hs.joined p ((List.mem_append.mp hheld').resolve_right hmem)
  · by_cases hmem : p ∈ s.srv.clientsBuff
    · obtain ⟨⟨c, hc⟩, -⟩ := hjoined p hmem
      rw [hc] at hnone
      cases hnone
    · obtain ⟨c, hc⟩ := ho.get? hp
      have hsame : t.heap.get? p = s.heap.get? p := congrArg Prod.fst (hframe p hmem)
      rw [hsame, hc] at hnone
      cases hnone
  · exact hframe p fun hmem => hp (List.mem_append_right _ hmem)

/-- A destructor calls no event function. -/
theorem deleteClient_events (h : s.deleteClient p = .ok t) : t.events = s.events := by
  rw [deleteClient] at h
  obtain ⟨heap, -, h⟩ := Fallible.bind_eq_ok.mp h
  obtain rfl := Except.ok.inj h
  rfl

theorem foldlM_deleteClient_events (ps : List Ptr) {s t : ServerState}
    (h : ps.foldlM deleteClient s = .ok t) : t.events = s.events := by
  induction ps generalizing s with
  | nil =>
    obtain rfl := Except.ok.inj h
    rfl
  | cons p ps ih =>
    rw [List.foldlM_cons] at h
    obtain ⟨u, hu, h⟩ := Fallible.bind_eq_ok.mp h
    rw [ih h, deleteClient_events hu]

theorem clearClients_eq_ok (h : s.clearClients = .ok t) :
    t.events = s.events ∧ t.srv.clientsBuff = [] := by
  rw [clearClients] at h
  obtain ⟨u, hu, h⟩ := Fallible.bind_eq_ok.mp h
  obtain ⟨v, hv, h⟩ := Fallible.bind_eq_ok.mp h
  obtain rfl := Except.ok.inj h
  have hu' := foldlM_deleteClient_events _ hu
  have hv' := foldlM_deleteClient_events _ hv
  exact ⟨hv'.trans hu', rfl⟩

/-- The hand-over and `ClearClients` leave no client in the buffer. -/
theorem work_clientsBuff_nil {h : Handler} {n : ℕ} (hwork : s.work h n sys = some (.ok t))
    (hpc : s.srv.pc = .handOver ∨ s.srv.pc = .clearClients) : t.srv.clientsBuff = [] := by
  rcases hpc with hpc | hpc <;> simp only [work, hpc, Option.some.injEq] at hwork
  · obtain ⟨u, hu, rfl⟩ := Exec.map_eq_ok.mp hwork
    rw [handOver] at hu
    split at hu
    · obtain rfl := Except.ok.inj hu
      exact List.isEmpty_iff.mp ‹_›
    · obtain ⟨v, -, hv⟩ := Fallible.bind_eq_ok.mp hu
      obtain rfl := Except.ok.inj hv
      rfl
  · obtain ⟨u, hu, ht⟩ := Fallible.bind_eq_ok.mp hwork
    obtain rfl := Except.ok.inj ht
    exact (clearClients_eq_ok hu).2

/-- `ClearClients` calls no event function. -/
theorem work_events {h : Handler} {n : ℕ} (hwork : s.work h n sys = some (.ok t))
    (hpc : s.srv.pc = .clearClients) : t.events = s.events := by
  simp only [work, hpc, Option.some.injEq] at hwork
  obtain ⟨u, hu, ht⟩ := Fallible.bind_eq_ok.mp hwork
  obtain rfl := Except.ok.inj ht
  exact (clearClients_eq_ok hu).1

/-- Every section but `ClearClients` is in order. -/
theorem Ran.passed {h : Handler} {n : ℕ} (hran : s.Ran sys others t)
    (hwork : s.work h n sys = some (.ok t)) (ho : s.Owns others)
    (hcache : s.srv.pc ≠ .ended → ∀ d, s.srv.derived = .select d → s.CacheReal d)
    (hne : s.srv.pc ≠ .clearClients) (hs : s.Staged) : s.Passed t := by
  have hround : ∀ {u : ServerState}, s.srv.pc = .doNetEvents → s.Rounded sys u others →
      s.Passed u := by
    intro u hpc hround
    obtain ⟨v, hv, htable, hclients, hbuff, htour⟩ := hround.toured ho (hcache (by simp [hpc]))
    rw [← hclients] at htour
    exact (htour.passed (s.netEffect_orderly sys) hv
      (hs.of_eq htable hclients hbuff)).of_eq_left htable hclients hbuff
  cases hran with
  | loop => exact (hs.passed ho).of_eq rfl rfl rfl
  | @handOver hpc u hover =>
    have hbuff := work_clientsBuff_nil hwork (Or.inl hpc)
    change u.srv.clientsBuff = [] at hbuff
    exact (hover.passed hbuff ho hs).of_eq rfl rfl rfl
  | skip => exact (hs.passed ho).of_eq rfl rfl rfl
  | busy => exact (hs.passed ho).of_eq rfl rfl rfl
  | checkTime _ htour => exact (htour.passed (CheckEffect.orderly _) ho hs).of_eq rfl rfl rfl
  | round hpc hr => exact (hround hpc hr).of_eq rfl rfl rfl
  | stop hpc hr => exact (hround hpc hr).of_eq rfl rfl rfl
  | doMsg _ htour => exact (htour.passed msgEffect_orderly ho hs).of_eq rfl rfl rfl
  | clearClients hpc => exact absurd hpc hne

/-- `ClearClients` leaves the server without clients, and the clients of the others alone. -/
theorem Ran.wiped {h : Handler} {n : ℕ} (hran : s.Ran sys others t)
    (hwork : s.work h n sys = some (.ok t)) (ho : s.Owns others)
    (hpc : s.srv.pc = .clearClients) : t.Staged ∧ t.srv.pc = .ended ∧ t.events = s.events ∧
      ∀ p ∉ s.srv.held, t.table p = s.table p := by
  have hevents := work_events hwork hpc
  have hw := hran.worked ho
  have hclients := (hw.cleared hpc).2
  have hbuff := work_clientsBuff_nil hwork (Or.inr hpc)
  have hnext := work_next hwork
  rw [hpc] at hnext
  refine ⟨⟨fun p hp => ?_, fun p hp => ?_⟩, List.mem_singleton.mp hnext, hevents, fun p hp => ?_⟩
  · rw [hbuff] at hp
    cases hp
  · rw [hclients] at hp
    cases hp
  · have hget : t.heap.get? p = s.heap.get? p := by
      by_cases hmem : p ∈ others
      · exact hw.frame p hmem
      · have hnone : s.heap.get? p = none := by
          refine Option.eq_none_iff_forall_ne_some.mpr fun c hc => ?_
          exact (List.mem_append.mp ((ho.live p).mp ⟨c, hc⟩)).elim hp hmem
        refine hnone ▸ Option.eq_none_iff_forall_ne_some.mpr fun c hc => ?_
        obtain ⟨c', hc', -⟩ := hw.old p c hc
        rw [hnone] at hc'
        cases hc'
    rw [table, table, hget, hevents]

end ServerState

/-- The action is a section of the worker `i`. -/
def TcpAct.isWork (i : ℕ) : TcpAct → Bool
  | .work j _ => j = i
  | _ => false

namespace EasyTcpServer

variable {s t : EasyTcpServer} {a : TcpAct} {i : ℕ} {srv : CELLServer} {u : ServerState}
  {h : Handler} {kind : ServerKind} {p : Ptr}

/-! ## The whole server -/

/-- The calls of the event functions for the client `p`. -/
def eventsOf (s : EasyTcpServer) (p : Ptr) : List NetEvent :=
  s.events.filter fun e => e.pClient = p

/-- The events are in order. -/
structure Ordered (s : EasyTcpServer) : Prop extends Owned s where
  cache : ∀ srv ∈ s.cellServers, srv.pc ≠ .ended → ∀ d, srv.derived = .select d →
    (s.view srv).CacheReal d
  staged : ∀ srv ∈ s.cellServers, (s.view srv).Staged
  gone : ∀ p < s.heap.size, s.heap.get? p = none →
    ∃ st, NetEvent.stage (s.eventsOf p) = some st
  fresh : ∀ p, s.heap.size ≤ p → s.eventsOf p = []

theorem Ordered.init (hinit : (tcpServer h kind).init s) : s.Ordered := by
  have hnew := fun srv (hmem : srv ∈ s.cellServers) => mem_init hinit hmem
  have ho := Owned.init hinit
  obtain ⟨hheap, -, hevents, -, new, -, hservers⟩ := hinit
  refine ⟨ho, fun srv hmem _ d _ hfalse => ?_, fun srv hmem => ⟨fun p hp => ?_, fun p hp => ?_⟩,
    fun p hp => ?_, fun p _ => ?_⟩
  · rw [hservers] at hmem
    obtain ⟨x, -, rfl⟩ := List.mem_map.mp hmem
    cases hfalse
  · rw [view, (hnew srv hmem).2.1] at hp
    cases hp
  · rw [view, (hnew srv hmem).1] at hp
    cases hp
  · rw [hheap] at hp
    cases hp
  · rw [eventsOf, hevents]
    rfl

/-- A step of one worker, which leaves the events of the others' clients alone. -/
theorem Ordered.put (ho : s.Ordered) (hi : s.cellServers[i]? = some srv)
    (howned : (s.put i u).Owned)
    (hcache : u.srv.pc ≠ .ended → ∀ d, u.srv.derived = .select d → u.CacheReal d)
    (hstaged : u.Staged) (hframe : ∀ p ∉ srv.held, (u.table p).2 = s.eventsOf p)
    (hgone : ∀ p < u.heap.size, u.heap.get? p = none →
      ∃ st, NetEvent.stage (u.table p).2 = some st)
    (hfresh : ∀ p, u.heap.size ≤ p → (u.table p).2 = []) : (s.put i u).Ordered := by
  have hdisj : ∀ srv' : CELLServer, (∀ p ∈ srv'.held, p ∈ s.others i) →
      ∀ p ∈ srv'.held, (s.put i u).eventsOf p = s.eventsOf p := by
    intro srv' hothers p hp
    exact hframe p fun hmem => (ho.toOwned.server hi).not_mem_others hmem (hothers p hp)
  refine ⟨howned, fun srv' hmem hpc d hd => ?_, fun srv' hmem => ?_, hgone, hfresh⟩
  · rcases mem_put hi hmem with rfl | ⟨hmem, -⟩
    · exact hcache hpc d hd
    · exact (ho.cache srv' hmem hpc d hd).of_eq rfl rfl
  · rcases mem_put hi hmem with rfl | ⟨hmem, hothers⟩
    · exact ⟨hstaged.waiting, hstaged.joined⟩
    · have hs := ho.staged srv' hmem
      refine ⟨fun p hp => ?_, fun p hp => ?_⟩
      · exact (hdisj srv' hothers p (List.mem_append_right _ hp)).trans (hs.waiting p hp)
      · exact (congrArg _ (hdisj srv' hothers p (List.mem_append_left _ hp))).trans
          (hs.joined p hp)

theorem Ordered.cacheReal (ho : s.Ordered) (hi : s.cellServers[i]? = some srv) :
    srv.pc ≠ .ended → ∀ d, srv.derived = .select d → (s.view srv).CacheReal d :=
  ho.cache srv (List.mem_of_getElem? hi)

/-- A section is about the clients of its worker. -/
theorem Ordered.work_frame (ho : s.Ordered) (hi : s.cellServers[i]? = some srv) {sys : SysCalls}
    {n : ℕ} (hwork : (s.view srv).work h n sys = some (.ok u))
    (hran : (s.view srv).Ran sys (s.others i) u) {p : Ptr} (hp : p ∉ srv.held) :
    u.table p = (s.view srv).table p := by
  have hown := ho.toOwned.server hi
  by_cases hpc : srv.pc = .clearClients
  · obtain ⟨-, -, -, hframe⟩ := hran.wiped hwork hown hpc
    exact hframe p hp
  · exact (hran.passed hwork hown (ho.cacheReal hi) hpc
      (ho.staged srv (List.mem_of_getElem? hi))).frame p hp

/-- A client that a section deletes has left, unless the section was `ClearClients`. -/
theorem Ordered.work_gone (ho : s.Ordered) (hi : s.cellServers[i]? = some srv) {sys : SysCalls}
    {n : ℕ} (hwork : (s.view srv).work h n sys = some (.ok u))
    (hran : (s.view srv).Ran sys (s.others i) u) {p : Ptr} (hp : p ∈ srv.held)
    (hnone : u.heap.get? p = none) : NetEvent.stage (u.table p).2 = some .left ∨
      u.srv.pc = .ended ∧ (u.table p).2 = s.eventsOf p := by
  have hown := ho.toOwned.server hi
  by_cases hpc : srv.pc = .clearClients
  · obtain ⟨-, hended, hevents, -⟩ := hran.wiped hwork hown hpc
    exact Or.inr ⟨hended, congrArg (List.filter fun e : NetEvent => decide (e.pClient = p)) hevents⟩
  · exact Or.inl ((hran.passed hwork hown (ho.cacheReal hi) hpc
      (ho.staged srv (List.mem_of_getElem? hi))).gone p hp hnone)

/-- The events about a client of a worker are in order. -/
theorem Ordered.stage_held (ho : s.Ordered) (hmem : srv ∈ s.cellServers) (hp : p ∈ srv.held) :
    ∃ st, NetEvent.stage (s.eventsOf p) = some st := by
  rcases List.mem_append.mp hp with hmap | hbuff
  · exact ⟨_, (ho.staged srv hmem).joined p hmap⟩
  · refine ⟨.waiting, ?_⟩
    rw [show s.eventsOf p = [] from (ho.staged srv hmem).waiting p hbuff]
    rfl

theorem Ordered.work (ho : s.Ordered) {sys : SysCalls}
    (hstep : (tcpServer h kind).step s (.work i sys) (.ok t)) : t.Ordered := by
  have howned := ho.toOwned.step hstep
  obtain ⟨srv, u, n, hi, hwork, hran, rfl⟩ := ho.toOwned.work_step hstep
  have hmem := List.mem_of_getElem? hi
  have hown := ho.toOwned.server hi
  have hsize : u.heap.size = s.heap.size := (hran.worked hown).size
  have hframe : ∀ p ∉ srv.held, u.table p = (s.view srv).table p :=
    fun p hp => ho.work_frame hi hwork hran hp
  have hstaged : u.Staged := by
    by_cases hpc : srv.pc = .clearClients
    · exact (hran.wiped hwork hown hpc).1
    · exact (hran.passed hwork hown (ho.cacheReal hi) hpc (ho.staged srv hmem)).staged
  refine ho.put hi howned (fun hpc d hd => hran.cacheReal (ho.cache srv hmem) hpc (d := d) hd)
    hstaged (fun p hp => congrArg Prod.snd (hframe p hp)) (fun p hp hnone => ?_) fun p hp => ?_
  · by_cases hheld : p ∈ srv.held
    · rcases ho.work_gone hi hwork hran hheld hnone with hleft | ⟨-, hevents⟩
      · exact ⟨_, hleft⟩
      · rw [hevents]
        exact ho.stage_held hmem hheld
    · have hrow := hframe p hheld
      have hget : u.heap.get? p = s.heap.get? p := congrArg Prod.fst hrow
      rw [hrow]
      exact ho.gone p (hsize ▸ hp) (hget.symm.trans hnone)
  · rw [hsize] at hp
    rw [hframe p fun hheld => ?_]
    · exact ho.fresh p hp
    · obtain ⟨c, hc⟩ := hown.get? (p := p) hheld
      exact Nat.not_lt.mpr hp (Heap.lt_size hc)

/-- A new client has no events. -/
theorem Ordered.addClient (ho : s.Ordered) (hi : s.cellServers[i]? = some srv) {c : CELLClient}
    (howned : (s.put i ((s.view srv).addClient c)).Owned) :
    (s.put i ((s.view srv).addClient c)).Ordered := by
  have hmem := List.mem_of_getElem? hi
  have hs := ho.staged srv hmem
  have hsize : ((s.view srv).addClient c).heap.size = s.heap.size + 1 := Heap.size_new
  refine ho.put hi howned (fun hpc d hd => ?_) ⟨fun p hp => ?_, hs.joined⟩ (fun _ _ => rfl)
    (fun p hp hnone => ?_) fun p hp => ?_
  · exact (ho.cache srv hmem hpc d hd).of_eq rfl rfl
  · rcases List.mem_append.mp hp with hp | hp
    · exact hs.waiting p hp
    · obtain rfl := List.mem_singleton.mp hp
      exact ho.fresh _ (le_refl _)
  · have hget := (Heap.get?_new (h := s.heap) (a := c) (q := p)).symm.trans hnone
    split at hget
    · cases hget
    · rename_i hne
      have hp' : p < s.heap.size := Nat.lt_of_le_of_ne
        (Nat.le_of_lt_succ (Nat.lt_of_lt_of_eq hp hsize)) hne
      exact ho.gone p hp' hget
  · exact ho.fresh p (by omega)

theorem Ordered.step (ho : s.Ordered) (hstep : (tcpServer h kind).step s a (.ok t)) :
    t.Ordered := by
  have howned := ho.toOwned.step hstep
  cases a with
  | work i sys => exact ho.work hstep
  | accept cSock sendMem recvMem =>
    cases ho.toOwned.stepped hstep with
    | refused => exact ho
    | accepted _ _ hmin => exact ho.addClient hmin.1 howned
  | time4msg =>
    cases ho.toOwned.stepped hstep with
    | logged =>
      refine ⟨howned, fun srv hmem hpc d hd => ?_, fun srv hmem => ?_, ho.gone, ho.fresh⟩
      · exact (ho.cache srv hmem hpc d hd).of_eq rfl rfl
      · exact ⟨(ho.staged srv hmem).waiting, (ho.staged srv hmem).joined⟩
  | close i =>
    cases ho.toOwned.stepped hstep with
    | closed hi =>
      have hmem := List.mem_of_getElem? hi
      have hs := ho.staged _ hmem
      refine ho.put hi howned (fun hpc d hd => ?_) ⟨hs.waiting, hs.joined⟩ (fun _ _ => rfl)
        ho.gone ho.fresh
      exact (ho.cache _ hmem hpc d hd).of_eq rfl rfl

/-- The events of a run are in order. -/
theorem Ordered.run {s₀ : EasyTcpServer} {tr : List (EasyTcpServer × TcpAct)}
    (hinit : (tcpServer h kind).init s₀) (hrun : (tcpServer h kind).Run s₀ tr s) : s.Ordered :=
  hrun.invariant (fun _ _ _ ho hst => Ordered.step ho hst) (.init hinit)

theorem Ordered.stage (ho : s.Ordered) (p : Ptr) :
    ∃ st, NetEvent.stage (s.eventsOf p) = some st := by
  rcases Nat.lt_or_ge p s.heap.size with hp | hp
  · rcases hget : s.heap.get? p with _ | c
    · exact ho.gone p hp hget
    · obtain ⟨srv, hmem, hheld⟩ := List.mem_flatMap.mp ((ho.live p).mp ⟨c, hget⟩)
      exact ho.stage_held hmem hheld
  · rw [ho.fresh p hp]
    exact ⟨_, rfl⟩

/-! ## The worker of a client -/

/-- The other actions leave the thread of a worker where it is, and who waits there. -/
theorem Owned.other_step (ho : s.Owned) (hstep : (tcpServer h kind).step s a (.ok t))
    (ha : a.isWork i = false) (hi : s.cellServers[i]? = some srv) : ∃ srv',
      t.cellServers[i]? = some srv' ∧ srv'.pc = srv.pc ∧
      ∀ p ∈ srv.clientsBuff, p ∈ srv'.clientsBuff := by
  have hput : ∀ {j srv₁ u}, s.cellServers[j]? = some srv₁ →
      (j = i → u.srv.pc = srv₁.pc ∧ ∀ p ∈ srv₁.clientsBuff, p ∈ u.srv.clientsBuff) →
      ∃ srv', (s.put j u).cellServers[i]? = some srv' ∧ srv'.pc = srv.pc ∧
        ∀ p ∈ srv.clientsBuff, p ∈ srv'.clientsBuff := by
    intro j srv₁ u hj hu
    rw [getElem?_put hj]
    split
    · rename_i heq
      subst heq
      obtain rfl : srv₁ = srv := Option.some.inj (hj.symm.trans hi)
      exact ⟨u.srv, rfl, hu rfl⟩
    · exact ⟨srv, hi, rfl, fun _ hp => hp⟩
  cases ho.stepped hstep with
  | refused => exact ⟨srv, hi, rfl, fun _ hp => hp⟩
  | accepted _ _ hmin => exact hput hmin.1 fun _ => ⟨rfl, fun _ hp => List.mem_append_left _ hp⟩
  | logged => exact ⟨srv, hi, rfl, fun _ hp => hp⟩
  | closed hj => exact hput hj fun _ => ⟨rfl, fun _ hp => hp⟩
  | worked hj =>
    refine hput hj fun heq => ?_
    rw [heq, TcpAct.isWork, decide_eq_false_iff_not] at ha
    exact absurd rfl ha

/-- The thread of a worker moves in its own sections only. -/
theorem Owned.pc_step (ho : s.Owned) (hstep : (tcpServer h kind).step s a (.ok t))
    (hi : s.cellServers[i]? = some srv) : ∃ srv', t.cellServers[i]? = some srv' ∧
      (srv'.pc = srv.pc ∨ a.isWork i = true ∧ srv'.pc ∈ srv.pc.next) := by
  rcases ha : a.isWork i with _ | _
  · obtain ⟨srv', hi', hpc, -⟩ := ho.other_step hstep ha hi
    exact ⟨srv', hi', Or.inl hpc⟩
  · cases a with
    | work j sys =>
      obtain rfl : j = i := of_decide_eq_true ha
      obtain ⟨srv', u, n, hj, hwork, -, rfl⟩ := ho.work_step hstep
      obtain rfl : srv' = srv := Option.some.inj (hj.symm.trans hi)
      refine ⟨u.srv, ?_, Or.inr ⟨rfl, ServerState.work_next hwork⟩⟩
      rw [getElem?_put hi, if_pos rfl]
    | _ => cases ha

/-- The worker `i` holds the client `p`, in its buffer or in its map. -/
def HeldBy (s : EasyTcpServer) (i : ℕ) (p : Ptr) : Prop :=
  ∃ srv, s.cellServers[i]? = some srv ∧ p ∈ srv.held

/-- The thread of the worker `i` is over. -/
def EndedAt (s : EasyTcpServer) (i : ℕ) : Prop :=
  ∃ srv, s.cellServers[i]? = some srv ∧ srv.pc = .ended

/-- The client `p` was deleted, and has left unless the thread of the worker `i` is over. -/
def GoneFrom (s : EasyTcpServer) (i : ℕ) (p : Ptr) : Prop :=
  p < s.heap.size ∧ s.heap.get? p = none ∧
    (NetEvent.stage (s.eventsOf p) = some .left ∨ s.EndedAt i)

theorem Owned.endedAt_step (ho : s.Owned) (hstep : (tcpServer h kind).step s a (.ok t))
    (hs : s.EndedAt i) : t.EndedAt i := by
  obtain ⟨srv, hi, hended⟩ := hs
  obtain ⟨srv', hi', hpc | ⟨-, hnext⟩⟩ := ho.pc_step hstep hi
  · exact ⟨srv', hi', hpc.trans hended⟩
  · rw [hended] at hnext
    cases hnext

/-- A worker that is changed keeps a client if the change does. -/
theorem HeldBy.put (hp : s.HeldBy i p) {j : ℕ} (hj : s.cellServers[j]? = some srv)
    (hu : j = i → p ∈ srv.held → p ∈ u.srv.held) : (s.put j u).HeldBy i p := by
  obtain ⟨srv', hi, hheld⟩ := hp
  by_cases hij : j = i
  · subst hij
    obtain rfl : srv = srv' := Option.some.inj (hj.symm.trans hi)
    exact ⟨u.srv, by rw [getElem?_put hj, if_pos rfl], hu rfl hheld⟩
  · exact ⟨srv', by rwa [getElem?_put hj, if_neg hij], hheld⟩

/-- A client stays with its worker until it is deleted. -/
theorem Ordered.heldBy_step (ho : s.Ordered) (hstep : (tcpServer h kind).step s a (.ok t))
    (hp : s.HeldBy i p) : t.HeldBy i p ∨ t.GoneFrom i p := by
  cases a with
  | work j sys =>
    obtain ⟨srv, u, n, hj, hwork, hran, rfl⟩ := ho.toOwned.work_step hstep
    by_cases hij : j = i
    · subst hij
      obtain ⟨srv', hj', hheld⟩ := hp
      obtain rfl : srv = srv' := Option.some.inj (hj.symm.trans hj')
      have hown := ho.toOwned.server hj
      have hw := hran.worked hown
      have hj'' : (s.put j u).cellServers[j]? = some u.srv := by rw [getElem?_put hj, if_pos rfl]
      rcases hget : u.heap.get? p with _ | c
      · obtain ⟨c, hc⟩ := hown.get? (p := p) hheld
        refine Or.inr ⟨hw.size.symm ▸ Heap.lt_size hc, hget, ?_⟩
        rcases ho.work_gone hj hwork hran hheld hget with hleft | ⟨hended, -⟩
        · exact Or.inl hleft
        · exact Or.inr ⟨u.srv, hj'', hended⟩
      · refine Or.inl ⟨u.srv, hj'', ?_⟩
        exact (List.mem_append.mp ((hw.owns.live p).mp ⟨c, hget⟩)).resolve_right
          (hown.not_mem_others hheld)
    · exact Or.inl (hp.put hj fun heq => absurd heq hij)
  | accept cSock sendMem recvMem =>
    cases ho.toOwned.stepped hstep with
    | refused => exact Or.inl hp
    | accepted _ _ hmin =>
      refine Or.inl (hp.put hmin.1 fun _ hheld => ?_)
      rcases List.mem_append.mp hheld with hmap | hbuff
      · exact List.mem_append_left _ hmap
      · exact List.mem_append_right _ (List.mem_append_left _ hbuff)
  | time4msg =>
    cases ho.toOwned.stepped hstep with
    | logged => exact Or.inl hp
  | close j =>
    cases ho.toOwned.stepped hstep with
    | closed hj => exact Or.inl (hp.put hj fun _ hheld => hheld)

/-- What was deleted stays so, and nothing more is called for it. -/
theorem Ordered.goneFrom_step (ho : s.Ordered) (hstep : (tcpServer h kind).step s a (.ok t))
    (hp : s.GoneFrom i p) : t.GoneFrom i p := by
  obtain ⟨hlt, hnone, hleft⟩ := hp
  have hended := fun hs => ho.toOwned.endedAt_step (i := i) hstep hs
  cases a with
  | work j sys =>
    obtain ⟨srv, u, n, hj, hwork, hran, rfl⟩ := ho.toOwned.work_step hstep
    have hown := ho.toOwned.server hj
    have hrow := ho.work_frame hj hwork hran (p := p) fun hheld => by
      obtain ⟨c, hc⟩ := hown.get? (p := p) hheld
      exact absurd (hc.symm.trans hnone) (by simp)
    refine ⟨(hran.worked hown).size.symm ▸ hlt, (congrArg Prod.fst hrow).trans hnone, ?_⟩
    refine hleft.imp (fun hleft => ?_) hended
    have hevents : (s.put j u).eventsOf p = s.eventsOf p := congrArg Prod.snd hrow
    rwa [hevents]
  | accept cSock sendMem recvMem =>
    cases ho.toOwned.stepped hstep with
    | refused => exact ⟨hlt, hnone, hleft⟩
    | accepted _ _ hmin =>
      refine ⟨?_, ?_, hleft.imp_right hended⟩
      · exact Nat.lt_of_lt_of_eq (Nat.lt_succ_of_lt hlt) Heap.size_new.symm
      · exact (Heap.get?_new.trans (if_neg hlt.ne)).trans hnone
  | time4msg =>
    cases ho.toOwned.stepped hstep with
    | logged => exact ⟨hlt, hnone, hleft.imp_right hended⟩
  | close j =>
    cases ho.toOwned.stepped hstep with
    | closed => exact ⟨hlt, hnone, hleft.imp_right hended⟩

/-- Where a client of the worker `i` can be at the end of a run. -/
theorem Ordered.heldBy_run (ho : s.Ordered) {tr : List (EasyTcpServer × TcpAct)}
    (hrun : (tcpServer h kind).Run s tr t) (hp : s.HeldBy i p) :
    t.HeldBy i p ∨ t.GoneFrom i p := by
  refine (hrun.invariant (I := fun s => s.Ordered ∧ (s.HeldBy i p ∨ s.GoneFrom i p))
    (fun s a t hs hst => ⟨hs.1.step hst, ?_⟩) ⟨ho, Or.inl hp⟩).2
  rcases hs.2 with hheld | hgone
  · exact hs.1.heldBy_step hst hheld
  · exact Or.inr (hs.1.goneFrom_step hst hgone)

/-- A worker held each client that was deleted. -/
theorem exists_heldBy {s₀ : EasyTcpServer} {tr : List (EasyTcpServer × TcpAct)}
    (hinit : (tcpServer h kind).init s₀) (hrun : (tcpServer h kind).Run s₀ tr s)
    (hp : p < s.heap.size) (hnone : s.heap.get? p = none) : ∃ x ∈ tr, ∃ i, x.1.HeldBy i p := by
  induction hrun with
  | nil =>
    rw [hinit.1] at hp
    cases hp
  | @snoc s t tr a hrun hst ih =>
    have ho := Ordered.run hinit hrun
    rcases hget : s.heap.get? p with _ | c
    · have hlt : p < s.heap.size := by
        cases ho.toOwned.stepped hst with
        | refused => exact hp
        | accepted _ _ hmin =>
          refine Nat.lt_of_le_of_ne (Nat.le_of_lt_succ (Nat.lt_of_lt_of_eq hp Heap.size_new)) ?_
          rintro rfl
          exact absurd ((Heap.get?_new.trans (if_pos rfl)).symm.trans hnone) (by simp)
        | logged => exact hp
        | closed => exact hp
        | worked _ hw => exact hw.size ▸ hp
      obtain ⟨x, hx, hheld⟩ := ih hlt hget
      exact ⟨x, List.mem_append_left _ hx, hheld⟩
    · obtain ⟨srv, hmem, hheld⟩ := List.mem_flatMap.mp ((ho.live p).mp ⟨c, hget⟩)
      obtain ⟨i, hi⟩ := List.mem_iff_getElem?.mp hmem
      exact ⟨_, List.mem_append_right _ (List.mem_singleton_self _), i, srv, hi, hheld⟩

end EasyTcpServer

/-- The event functions are called in order. In every run of a server with any number of
workers, the calls for a client are `OnNetJoin`, then any of `OnNetRecv` and `OnNetMsg`, and
then `OnNetLeave`, or a first part of that. There are none for a client that waits in a
buffer, and a client in a map has joined and not left. A deleted client was held by a worker
before, and has left unless the thread of the worker that held it is over. -/
theorem net_events_in_order (h : Handler) (kind : ServerKind) {s₀ s : EasyTcpServer}
    {tr : List (EasyTcpServer × TcpAct)} (hinit : (tcpServer h kind).init s₀)
    (hrun : (tcpServer h kind).Run s₀ tr s) (p : Ptr) :
    (∃ st, NetEvent.stage (s.eventsOf p) = some st) ∧
    (∀ srv ∈ s.cellServers, p ∈ srv.clientsBuff → s.eventsOf p = []) ∧
    (∀ srv ∈ s.cellServers, p ∈ srv.clients.values →
      NetEvent.stage (s.eventsOf p) = some .joined) ∧
    (p < s.heap.size → s.heap.get? p = none → (∃ x ∈ tr, ∃ i, x.1.HeldBy i p) ∧
      ∀ x ∈ tr, ∀ i, x.1.HeldBy i p →
        NetEvent.stage (s.eventsOf p) = some .left ∨ s.EndedAt i) := by
  have ho := EasyTcpServer.Ordered.run hinit hrun
  refine ⟨ho.stage p, fun srv hmem => (ho.staged srv hmem).waiting p,
    fun srv hmem => (ho.staged srv hmem).joined p,
    fun hp hnone => ⟨EasyTcpServer.exists_heldBy hinit hrun hp hnone, fun x hx i hheld => ?_⟩⟩
  obtain ⟨pre, hpre, post, hpost⟩ := hrun.split hx
  rcases (EasyTcpServer.Ordered.run hinit hpre).heldBy_run hpost hheld with ⟨srv, hi, hlive⟩ | hgone
  · obtain ⟨c, hc⟩ := (ho.toOwned.server hi).get? (p := p) hlive
    exact absurd (hc.symm.trans hnone) (by simp)
  · exact hgone.2.2

/-- The client of one worker has left by a failed read. `ClearClients` of the other worker has
deleted the client that waited there. -/
theorem net_events_in_order_two : ∃ tr s,
    (tcpServer .ignore .select).Run (.newSelect 2 10) tr s ∧
    s.heap.get? 0 = none ∧ NetEvent.stage (s.eventsOf 0) = some .left ∧
    s.heap.get? 1 = none ∧ s.EndedAt 1 := by
  let sys : SysCalls := ⟨0, fun _ => true, .ready [4] [], .events [], fun _ => .fail,
    fun _ => .accept 0⟩
  let client : SOCKET → TcpAct := fun fd => .accept fd (fun _ => 0) fun _ => 0
  let acts : List TcpAct := List.replicate 5 (.work 0 sys) ++ .close 1 ::
    List.replicate 2 (.work 1 sys)
  let next? := Machine.next? EasyTcpServer.Kernel (EasyTcpServer.act .ignore) 1
  have heval : ((next? (.newSelect 2 10) (client 4)).bind fun s₁ =>
      (next? s₁ (client 5)).bind fun s₂ => (acts.foldlM next? s₂).map fun s =>
        (s₁.cellServers.map CELLServer.clientsBuff, s.heap.size,
          ((s.heap.get? 0).isNone, (s.heap.get? 1).isNone), s.cellServers.map CELLServer.pc)) =
        some ([[0], []], 2, (true, true), [.doMsg, .ended]) := by
    decide +kernel
  obtain ⟨s₁, hs₁, heval⟩ := Option.bind_eq_some_iff.mp heval
  obtain ⟨s₂, hs₂, heval⟩ := Option.bind_eq_some_iff.mp heval
  obtain ⟨s, hs, hstate⟩ := Option.map_eq_some_iff.mp heval
  simp only [Prod.mk.injEq] at hstate
  obtain ⟨hbuff, hsize, ⟨hnone₀, hnone₁⟩, hpcs⟩ := hstate
  obtain ⟨tr, htr, -⟩ := Machine.Run.of_next? (tcpServer .ignore .select).init hs
  have hrun : (tcpServer .ignore .select).Run (.newSelect 2 10) _ s :=
    .cons (Machine.step_of_next? _ hs₁) (.cons (Machine.step_of_next? _ hs₂) htr)
  have hpc : ∀ (i : ℕ) (pc : PC), (s.cellServers.map CELLServer.pc)[i]? = some pc →
      ∃ srv : CELLServer, s.cellServers[i]? = some srv ∧ srv.pc = pc := by
    intro i pc hi
    rw [List.getElem?_map] at hi
    exact Option.map_eq_some_iff.mp hi
  obtain ⟨-, -, -, hgone⟩ := net_events_in_order .ignore .select
    (EasyTcpServer.newSelect_init .ignore 2 10) hrun 0
  refine ⟨_, s, hrun, Option.isNone_iff_eq_none.mp hnone₀, ?_,
    Option.isNone_iff_eq_none.mp hnone₁, hpc _ _ (by rw [hpcs]; rfl)⟩
  have hheld : s₁.HeldBy 0 0 := by
    obtain ⟨srv, hi, hsrv⟩ : ∃ srv : CELLServer, s₁.cellServers[0]? = some srv ∧
        srv.clientsBuff = [0] := by
      rw [← Option.map_eq_some_iff, ← List.getElem?_map, hbuff]
      rfl
    refine ⟨srv, hi, List.mem_append_right _ ?_⟩
    rw [hsrv]
    exact List.mem_singleton_self 0
  have hleft := (hgone (hsize ▸ Nat.two_pos) (Option.isNone_iff_eq_none.mp hnone₀)).2
    (s₁, client 5) (List.mem_cons_of_mem _ List.mem_cons_self) 0 hheld
  refine hleft.resolve_right ?_
  -- the worker that held it is in `DoMsg`
  rintro ⟨srv, hi, hended⟩
  obtain ⟨srv', hi', hdoMsg⟩ := hpc 0 .doMsg (by rw [hpcs]; rfl)
  obtain rfl : srv = srv' := Option.some.inj (hi.symm.trans hi')
  rw [hended] at hdoMsg
  cases hdoMsg

end CellNet
