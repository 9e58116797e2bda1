import CellNet.Round

/-!
# The sections of a server thread

What the sections of `OnRun` around `DoNetEvents`, and `ClearClients` behind it, do to the
clients and to the ownership of them. All but the last leave `Kept`, and are sweeps with an
effect : the hand-over (`JoinEffect`), `CheckTime` (`CheckEffect`) and `DoMsg`
(`MsgEffect`). The hand-over needs that the descriptors of the clients are `Distinct`.
`ClearClients` deletes what the server owns without counting it.
-/

namespace CellNet

namespace ServerState

variable {s s' s'' : ServerState} {others : List Ptr} {p : Ptr} {k : SOCKET} {c : CELLClient}

section Sections

variable {E : UB → Prop}

/-- `CheckTime` removes the clients whose time is up. -/
theorem checkTime_toured (h : s.Owns others) (now : ℤ) :
    Exec.Sat E (s.checkTime now) fun s' =>
      s.Toured (CheckEffect (now - s.srv.oldTime)) s' others s.srv.clients.values := by
  let t : ServerState := { s with srv := { s.srv with oldTime := now } }
  have hk : s.Kept t others := .of_eq h rfl rfl rfl rfl rfl h.registered
  have hshrunk : s.Shrunk t := ⟨fun _ he => he, rfl, Or.inr ⟨rfl, rfl, rfl⟩⟩
  have hsweep := sweep_clients (checkClient (now - s.srv.oldTime)) (s := t) (E := E)
    hk.owns fun u k p c hu _ hp _ _ => checkClient_visited (now - s.srv.oldTime) hu hp
  exact hsweep.mono fun _ hs' =>
    ⟨hk.trans hs'.toKept, hshrunk.trans hs'.shrunk, hs'.swept⟩

/-- The clients have different descriptors. -/
def Distinct (h : Heap CELLClient) : Prop :=
  ∀ p q c d, h.get? p = some c → h.get? q = some d → c.sockfd = d.sockfd → p = q

theorem Evolves.distinct (h : s.Evolves s' others) (hd : Distinct s.heap) :
    Distinct s'.heap := by
  intro p q c d hc hq heq
  obtain ⟨c₀, hc₀, hfd⟩ := h.old p c hc
  obtain ⟨d₀, hd₀, hfd'⟩ := h.old q d hq
  exact hd p q c₀ d₀ hc₀ hd₀ (by rw [← hfd, ← hfd', heq])

/-- The state with `ps` in the hand-over buffer. -/
def setBuff (s : ServerState) (ps : List Ptr) : ServerState :=
  { s with srv := { s.srv with clientsBuff := ps } }

/-- `s'` is `s` after the client `p` has joined with the key `k`. -/
structure Joined (s s' : ServerState) (k : SOCKET) (p : Ptr) : Prop where
  size : s'.heap.size = s.heap.size
  heap : ∃ c, s.heap.get? p = some c ∧ c.sockfd = k ∧
    ∀ q, s'.heap.get? q = if q = p then some { c with serverId := s.srv.id } else s.heap.get? q
  clientCount : s'.counts.clientCount = int32 (s.counts.clientCount + 1)
  events : s'.events = s.events ++ [.onNetJoin p]
  id : s'.srv.id = s.srv.id
  clients : s'.srv.clients = s.srv.clients.set k p
  kind : s'.srv.kind = s.srv.kind
  registered : ∀ x ∈ s'.srv.registered, x ∈ s.srv.registered ∨ (x.1 = k ∧ x.2.ptr = p)

/-- `OnClientJoin` only registers the client. -/
theorem onClientJoin_sat (hc : s.heap.get? p = some c) (ok : Bool) :
    Exec.Sat E (s.onClientJoin p ok) fun s' => ∃ derived, s' = s.setDerived derived ∧
      s'.srv.kind = s.srv.kind ∧ ∀ x ∈ s'.srv.registered,
        x ∈ s.srv.registered ∨ (x.1 = c.sockfd ∧ x.2.ptr = p) := by
  unfold onClientJoin
  cases hd : s.srv.derived with
  | select d =>
    refine ⟨.select d, ?_, rfl, fun x hx => Or.inl hx⟩
    rw [setDerived, ← hd]
  | epoll d =>
    dsimp only
    rw [sockfd_eq hc, Fallible.ok_bind]
    refine ⟨_, rfl, by rw [CELLServer.kind, CELLServer.kind, hd]; rfl, fun x hx => ?_⟩
    have hold : s.srv.registered = d.ep.registered := by rw [CELLServer.registered, hd]
    simp only [setDerived, CELLServer.registered, CELLEpoll.ctl] at hx
    rw [hold]
    split at hx
    · split at hx
      · exact Or.inl hx
      · rcases List.mem_append.mp hx with hx | hx
        · exact Or.inl hx
        · rw [List.mem_singleton.mp hx]
          exact Or.inr ⟨rfl, rfl⟩
    · exact Or.inl hx

theorem joinClient_sat (hc : s.heap.get? p = some c) (sys : SysCalls) :
    Exec.Sat E (joinClient sys s p) fun s' => s.Joined s' c.sockfd p := by
  rw [joinClient, sockfd_eq hc, Fallible.ok_bind]
  let t : ServerState := { s with srv := { s.srv with clients := s.srv.clients.set c.sockfd p } }
  have hcall : Exec.Sat E (t.call p fun c => .ok ((), { c with serverId := s.srv.id })) fun y =>
      ∃ c', c' = { c with serverId := s.srv.id } ∧ t.Updated y.2 p c' [] := by
    refine call_sat (s := t) (Q := fun _ c' => c' = { c with serverId := s.srv.id }) hc ?_
    exact ⟨rfl, rfl⟩
  refine hcall.bind ?_
  rintro ⟨_, u⟩ ⟨_, rfl, hu⟩
  dsimp only at hu ⊢
  rw [event_eq (e := .onNetJoin p) hu.get?, Fallible.ok_bind]
  let v : ServerState :=
    { u with counts := u.counts.onNetJoin, events := u.events ++ [.onNetJoin p] }
  refine (onClientJoin_sat (s := v) hu.get? _).mono ?_
  rintro s' ⟨derived, rfl, hkind, hreg⟩
  have hevents : u.events = s.events := hu.events.trans (List.append_nil _)
  have hsrv : u.srv = t.srv := hu.srv
  have hvkind : u.srv.kind = t.srv.kind := congrArg CELLServer.kind hsrv
  refine ⟨hu.size, ⟨c, hc, rfl, hu.heap⟩, ?_, ?_, (congrArg CELLServer.id hsrv : u.srv.id = _),
    (congrArg CELLServer.clients hsrv : u.srv.clients = _), hkind.trans hvkind, fun x hx => ?_⟩
  · rw [← show u.counts.clientCount = s.counts.clientCount from hu.clientCount]
    rfl
  · rw [← hevents]
    rfl
  · have hold : u.srv.registered = t.srv.registered := congrArg CELLServer.registered hsrv
    exact (hreg x hx).imp_left fun hx => hold ▸ hx

/-- A client that joins moves from the buffer into the map. -/
theorem Joined.kept {ps : List Ptr} (hj : s.Joined s' k p) (h : (s.setBuff (p :: ps)).Owns others)
    (hd : Distinct s.heap) : (s.setBuff (p :: ps)).Kept (s'.setBuff ps) others := by
  obtain ⟨c, hc, hfd, hget⟩ := hj.heap
  obtain ⟨c', hc'⟩ : ∃ c', c' = { c with serverId := s.srv.id } := ⟨_, rfl⟩
  rw [← hc'] at hget
  have hfd' : c'.sockfd = k := by rw [hc', hfd]
  have hfresh : ∀ e ∈ s.srv.clients.entries, e.1 ≠ k := by
    rintro ⟨k', q⟩ he rfl
    obtain ⟨d, hq, hk⟩ := h.keyed k' q he
    obtain rfl : q = p := hd q p d c hq hc (hk.trans hfd.symm)
    exact h.not_mem_clientsBuff (List.mem_map.mpr ⟨(k', q), he, rfl⟩) List.mem_cons_self
  have hperm := SortedMap.set_perm (v := p) hfresh
  rw [← hj.clients] at hperm
  have hheld : ((s'.setBuff ps).srv.held ++ others).Perm
      ((s.setBuff (p :: ps)).srv.held ++ others) := by
    refine List.Perm.append_right _ ?_
    have hvalues : s'.srv.clients.values.Perm (p :: s.srv.clients.values) := hperm.map Prod.snd
    exact (hvalues.append_right ps).trans List.perm_middle.symm
  have hsize : s'.srv.clients.size = s.srv.clients.size + 1 := hperm.length_eq
  refine ⟨⟨?_, ?_, hj.size, ?_, hj.kind⟩, ⟨hheld.nodup_iff.mpr h.nodup, ?_, ?_, ?_⟩, ?_⟩
  · intro q d hq
    rw [setBuff, hget] at hq
    split at hq
    · rename_i hqp
      obtain rfl : c' = d := by simpa using hq
      exact ⟨c, hqp ▸ hc, hfd'.trans hfd.symm⟩
    · exact ⟨d, hq, rfl⟩
  · intro q hq
    rw [setBuff, hget, if_neg]
    · rfl
    · rintro rfl
      refine h.not_mem_others ?_ hq
      exact List.mem_append_right _ List.mem_cons_self
  · simp only [CELLServer.getClientCount, setBuff, List.length_cons]
    omega
  · intro q
    rw [hheld.mem_iff, ← h.live q, setBuff, hget]
    split
    · rename_i hqp
      subst hqp
      simp [setBuff, hc]
    · rfl
  · intro k' q hq
    rw [setBuff, hget]
    rcases List.mem_cons.mp (hperm.mem_iff.mp hq) with heq | hq
    · obtain ⟨rfl, rfl⟩ := Prod.mk.inj heq
      exact ⟨c', if_pos rfl, hfd'⟩
    · obtain ⟨d, hd, hk⟩ := h.keyed k' q hq
      split
      · rename_i hqp
        subst hqp
        rw [setBuff, hc, Option.some.injEq] at hd
        exact ⟨c', rfl, by rw [hfd', ← hk, ← hd, hfd]⟩
      · exact ⟨d, hd, hk⟩
  · intro x hx
    refine hperm.mem_iff.mpr (List.mem_cons.mpr ?_)
    rcases hj.registered x hx with hx | ⟨hx, hx'⟩
    · exact Or.inr (h.registered x hx)
    · exact Or.inl (by rw [hx, hx'])
  · have hcount : (s'.setBuff ps).counts.clientCount = int32 (s.counts.clientCount + 1) :=
      hj.clientCount
    refine ⟨?_, fun _ => by rw [hcount, int32_int32]⟩
    rw [hcount, Int.sub_emod, int32_emod, ← Int.sub_emod]
    simp only [setBuff]
    congr 1
    omega

/-- A client that joins gets the id of the server. -/
def JoinEffect (id : ℤ) : Effect Ptr CELLClient NetEvent := fun p c o es =>
  o = some { c with serverId := id } ∧ es = [.onNetJoin p]

theorem Joined.table (hj : s.Joined s' k p) :
    Visit (JoinEffect s.srv.id) p (s.table p) (s'.table p) ∧
      ∀ q, q ≠ p → s'.table q = s.table q := by
  obtain ⟨c, hc, -, hget⟩ := hj.heap
  have habout : ∀ e ∈ [NetEvent.onNetJoin p], e.pClient = p :=
    fun e he => by rw [List.mem_singleton.mp he]; rfl
  have htable := table_of hget hj.events habout
  refine ⟨?_, fun q hq => by rw [htable, if_neg hq]⟩
  rw [htable, if_pos rfl, table_eq hc]
  exact .present ⟨rfl, rfl⟩

/-- What the hand-over leaves. -/
structure HandedOver (s s' : ServerState) (others : List Ptr) : Prop
    extends Kept s s' others where
  swept : Swept (JoinEffect s.srv.id) s.srv.clientsBuff s.table s'.table
  marked : s'.srv.clientsChange = true ∨ s' = s

theorem handOver_sat (h : s.Owns others) (hd : Distinct s.heap) (sys : SysCalls) :
    Exec.Sat E (s.handOver sys) fun s' => s.HandedOver s' others := by
  unfold handOver
  split
  · rename_i hnil
    refine ⟨.refl h, ?_, Or.inr rfl⟩
    rw [List.isEmpty_iff.mp hnil]
    exact .nil _ _
  · have hnodup : s.srv.clientsBuff.Nodup :=
      (List.nodup_append.mp (List.nodup_append.mp h.nodup).1).2.1
    refine Exec.Sat.bind (Q := fun t => s.Kept (t.setBuff []) others ∧
      Swept (JoinEffect s.srv.id) s.srv.clientsBuff s.table t.table) ?_ fun t ht => ?_
    · refine (Exec.Sat.foldlM (I := fun ps t => s.Kept (t.setBuff ps) others ∧
        t.srv.id = s.srv.id ∧ ∃ qs, s.srv.clientsBuff = qs ++ ps ∧
          Swept (JoinEffect s.srv.id) qs s.table t.table) ?_ _ s
        ⟨.refl h, rfl, [], rfl, .nil _ _⟩).mono fun t ht => ?_
      · rintro p ps t ⟨ht, hid, qs, hqs, hswept⟩
        obtain ⟨c, hc⟩ := ht.owns.get? (p := p) (List.mem_append_right _ List.mem_cons_self)
        have hdt : Distinct t.heap := ht.toEvolves.distinct hd
        refine (joinClient_sat (s := t) hc sys).mono fun u hu => ?_
        refine ⟨ht.trans (hu.kept ht.owns hdt), hu.id.trans hid, qs ++ [p], by simp [hqs], ?_⟩
        obtain ⟨hvisit, hframe⟩ := hu.table
        rw [hid] at hvisit
        refine hswept.snoc (fun hp => ?_) hvisit hframe
        rw [hqs] at hnodup
        exact List.disjoint_of_nodup_append hnodup hp List.mem_cons_self
      · obtain ⟨ht, -, qs, hqs, hswept⟩ := ht
        rw [List.append_nil] at hqs
        exact ⟨ht, hqs ▸ hswept⟩
    · exact ⟨ht.1.trans (.of_eq ht.1.owns rfl rfl rfl rfl rfl ht.1.owns.registered), ht.2,
        Or.inl rfl⟩

/-! ## DoMsg -/

/-- The messages in front of the receive buffer are handled, and are gone from it. Nothing
is said about a buffer that is not well formed. -/
def MsgEffect : Effect Ptr CELLClient NetEvent := fun p c o es =>
  ∃ c' fs, o = some c' ∧ es = fs.map (NetEvent.onNetMsg p) ∧ (c.recvBuff.WF → c'.recvBuff.WF ∧
    netmsgFraming.Splits c.recvBuff.bytes fs c'.recvBuff.bytes)

/-- `OnNetMsg` of a client. -/
theorem onNetMsg_sat (hc : s.heap.get? p = some c) (h : Handler) (header : List UInt8) :
    Exec.Sat E (onNetMsg h p s header) fun t => s.Updated t p (h.onNetMsg c header)
      [.onNetMsg p (header.take (headerLen header))] := by
  obtain ⟨t, ht, hu⟩ := event_updated (e := .onNetMsg p (header.take (headerLen header))) hc rfl
  rw [onNetMsg, ht, Fallible.ok_bind]
  refine Exec.Sat.bind (call_sat (Q := fun _ c' => c' = h.onNetMsg c header) hu.get?
    ⟨rfl, h.sockfd_eq c header⟩) ?_
  rintro ⟨_, u⟩ ⟨_, rfl, hu'⟩
  exact hu.trans hu'

theorem popFrontMsg_sat (hE : E .outOfBounds) (hc : s.heap.get? p = some c) :
    Exec.Sat E (popFrontMsg p s) fun t => ∃ c', c.popFrontMsg = .ok c' ∧ s.Updated t p c' [] := by
  have hcall : Exec.Sat E (s.call p fun c => do
      let c ← c.popFrontMsg
      return ((), c)) fun y => ∃ c', c.popFrontMsg = .ok c' ∧ s.Updated y.2 p c' [] := by
    refine call_sat (Q := fun _ c' => c.popFrontMsg = .ok c') hc ?_
    have hpop := CELLClient.popFrontMsg_sat hE c
    cases hpf : c.popFrontMsg with
    | error e => rwa [hpf] at hpop
    | ok c' =>
      rw [hpf] at hpop
      exact ⟨rfl, hpop⟩
  exact hcall.bind fun y hy => hy

/-- One pass of the loop of `DoMsg` uses its client only, and takes the message in front. -/
theorem drain_body_sat (hE : E .outOfBounds) (h : Handler) (hc : s.heap.get? p = some c) :
    Exec.Sat E ((drain h p).body s) fun o =>
      (o = none → c.recvBuff.WF → ¬netmsgFraming.Complete c.recvBuff.bytes) ∧
      ∀ t, o = some t → ∃ c' m, s.Updated t p c' [.onNetMsg p m] ∧ (c.recvBuff.WF →
        c'.recvBuff.WF ∧ netmsgFraming.Takes c.recvBuff.bytes [m] c'.recvBuff.bytes) := by
  simp only [drain, drainLoop, Heap.deref_eq hc, Fallible.ok_bind]
  refine (CELLClient.hasMsg_sat hE c).eq_ok.bind fun b hb => ?_
  have hiff : c.recvBuff.WF → (b = true ↔ netmsgFraming.Complete c.recvBuff.bytes) := by
    intro hwf
    obtain ⟨r, hr, hiff⟩ := hwf.hasMsg_eq
    obtain rfl := Except.ok.inj (hr.symm.trans hb)
    exact hiff
  split
  swap
  · exact ⟨fun _ hwf => mt (hiff hwf).mpr ‹_›, fun t ht => by simp at ht⟩
  rename_i htrue
  refine (onNetMsg_sat hc h c.frontMsg).bind fun t hu => ?_
  refine (popFrontMsg_sat hE hu.get?).bind fun u hu' => ?_
  obtain ⟨c', hpop, hu'⟩ := hu'
  refine ⟨fun hnone => by simp at hnone, ?_⟩
  rintro _ ⟨⟩
  refine ⟨c', c.frontMsg.take (headerLen c.frontMsg), hu.trans hu', fun hwf => ?_⟩
  have hrecv := h.recvBuff_eq c c.frontMsg
  have hcomplete := (hiff hwf).mp htrue
  obtain ⟨h4, hle⟩ := netmsgFraming_complete.mp hcomplete
  obtain ⟨b', hpop', hwf', -, hbytes⟩ := CELLClient.popFrontMsg_eq
    (c := h.onNetMsg c c.frontMsg) (by rwa [hrecv]) (by rwa [hrecv])
  obtain rfl := Except.ok.inj (hpop.symm.trans hpop')
  refine ⟨hwf', ?_⟩
  obtain ⟨zs, hzs⟩ := CELLClient.frontMsg_eq hwf
  have htake : c.frontMsg.take (headerLen c.frontMsg) =
      c.recvBuff.bytes.take (headerLen c.recvBuff.bytes) := by
    rw [hzs, headerLen_append (by omega), List.take_append_of_le_length hle]
  rw [htake, hbytes, hrecv]
  exact .next .start (netmsgFraming_frameLen.mpr ⟨h4, rfl⟩) hle

theorem drain_visited (hE : E .outOfBounds) (h : Handler) (hs : s.Owns others)
    (hp : (k, p) ∈ s.srv.clients.entries) {r : Exec ServerState} (hr : (drain h p).Ends s r) :
    Exec.Sat E r fun t => s.Visited MsgEffect t others (k, p) ∧ t.srv = s.srv := by
  obtain ⟨c, hc⟩ := hs.get? (CELLServer.mem_held_of_entry hp)
  let I : ServerState → Prop := fun t => ∃ c' fs, s.Updated t p c' (fs.map (.onNetMsg p)) ∧
    (c.recvBuff.WF → c'.recvBuff.WF ∧
      netmsgFraming.Takes c.recvBuff.bytes fs c'.recvBuff.bytes)
  have hpass : ∀ t u, I t → (drain h p).body t = .ok (some u) → I u := by
    rintro t u ⟨c', fs, hu, htakes⟩ hb
    have hbody := drain_body_sat (E := fun _ => True) trivial h hu.get?
    rw [hb] at hbody
    obtain ⟨c'', m, hu', htakes'⟩ := hbody.2 u rfl
    refine ⟨c'', fs ++ [m], ?_, fun hwf => ?_⟩
    · rw [List.map_append]
      exact hu.trans hu'
    · obtain ⟨hwf', ht⟩ := htakes hwf
      obtain ⟨hwf'', ht'⟩ := htakes' hwf'
      exact ⟨hwf'', ht.trans ht'⟩
  obtain ⟨hok, herror⟩ := hr.invariant (I := I) hpass
    ⟨c, [], .refl hc, fun hwf => ⟨hwf, .start⟩⟩
  cases r with
  | ok t =>
    obtain ⟨⟨c', fs, hu, htakes⟩, hb⟩ := hok t rfl
    have hbody := drain_body_sat (E := fun _ => True) trivial h hu.get?
    rw [hb] at hbody
    refine ⟨hu.visited hs hp hc ⟨c', fs, rfl, rfl, fun hwf => ?_⟩, hu.srv⟩
    obtain ⟨hwf', ht⟩ := htakes hwf
    have hsplits := ht.splits (.done (hbody.1 rfl hwf'))
    rw [List.append_nil] at hsplits
    exact ⟨hwf', hsplits⟩
  | error e =>
    obtain ⟨t, ⟨c', fs, hu, -⟩, hb⟩ := herror e rfl
    have hbody := drain_body_sat hE h hu.get?
    rwa [hb] at hbody

theorem doMsgFrom_toured (hE : E .outOfBounds) (h : Handler) (n : ℕ) :
    ∀ (es : List (SOCKET × Ptr)) {s : ServerState}, s.Owns others →
      (∀ e ∈ es, e ∈ s.srv.clients.entries) → (es.map Prod.snd).Nodup →
      ∀ {r : Exec ServerState}, doMsgFrom h n es s = some r →
      Exec.Sat E r fun t => s.Toured MsgEffect t others (es.map Prod.snd) ∧ t.srv = s.srv
  | [], s, hs, _, _, r, hr => by
    obtain rfl : .ok s = r := by simpa [doMsgFrom] using hr
    exact ⟨.idle hs (by simp), rfl⟩
  | e :: es, s, hs, hmem, hnodup, r, hr => by
    rw [doMsgFrom] at hr
    obtain ⟨hnotin, hnodup'⟩ := List.nodup_cons.mp hnodup
    have hp : (e.1, e.2) ∈ s.srv.clients.entries := hmem e List.mem_cons_self
    cases hrun : (drain h e.2).run n s with
    | none => simp [hrun] at hr
    | some x =>
      have hx := drain_visited hE h hs hp ⟨n, hrun⟩
      cases x with
      | error u =>
        obtain rfl : .error u = r := by simpa [hrun] using hr
        exact hx
      | ok t =>
        obtain ⟨hv, hsrv⟩ := hx
        simp only [hrun] at hr
        have hmem' : ∀ e ∈ es, e ∈ t.srv.clients.entries := by
          rw [hsrv]
          exact fun e he => hmem e (List.mem_cons_of_mem _ he)
        exact (doMsgFrom_toured hE h n es hv.kept.owns hmem' hnodup' hr).mono
          fun u hu => ⟨hv.cons hnotin hu.1, hu.2.trans hsrv⟩

/-- The deletion of the clients `ps` is still to come, and the map is `cs`. -/
structure Clearing (s t : ServerState) (cs : SortedMap SOCKET Ptr) (ps others : List Ptr) :
    Prop where
  nodup : (ps ++ others).Nodup
  live : ∀ p, (∃ c, t.heap.get? p = some c) ↔ p ∈ ps ++ others
  size : t.heap.size = s.heap.size
  registered : ∀ x ∈ t.srv.registered, x.2.ptr ∈ ps ∧
    ∃ c, t.heap.get? x.2.ptr = some c ∧ c.sockfd = x.1
  old : ∀ p c, t.heap.get? p = some c → s.heap.get? p = some c
  counts : t.counts = s.counts
  clients : t.srv.clients = cs
  clientsBuff : t.srv.clientsBuff = s.srv.clientsBuff
  kind : t.srv.kind = s.srv.kind

theorem Clearing.delete {t : ServerState} {cs : SortedMap SOCKET Ptr} {ps : List Ptr}
    (h : s.Clearing t cs (p :: ps) others) :
    Exec.Sat E (t.deleteClient p) fun t' => s.Clearing t' cs ps others := by
  obtain ⟨c, hc⟩ := (h.live p).mpr (List.mem_append_left _ List.mem_cons_self)
  obtain ⟨heap, hdel, hsize, hget⟩ := deleteClient_eq hc
  have hnodup : (p :: (ps ++ others)).Nodup := h.nodup
  rw [hdel]
  refine ⟨(List.nodup_cons.mp hnodup).2, fun q => ?_, hsize.trans h.size, fun x hx => ?_,
    fun q d hd => ?_,
    h.counts, (CELLServer.clients_closed _ _).trans h.clients,
    (CELLServer.clientsBuff_closed _ _).trans h.clientsBuff,
    (CELLServer.kind_closed _ _).trans h.kind⟩
  · rw [hget]
    split
    · rename_i hq
      subst hq
      simpa using (List.nodup_cons.mp hnodup).1
    · rename_i hq
      rw [h.live q, List.cons_append, List.mem_cons]
      exact or_iff_right hq
  · rw [CELLServer.registered_closed, List.mem_filter] at hx
    obtain ⟨hmem, d, hd, hfd⟩ := h.registered x hx.1
    have hne : x.2.ptr ≠ p := by
      intro heq
      rw [heq, hc, Option.some.injEq] at hd
      simp [← hfd, hd] at hx
    refine ⟨(List.mem_cons.mp hmem).resolve_left hne, d, ?_, hfd⟩
    rw [hget, if_neg hne, hd]
  · rw [hget] at hd
    split at hd
    · simp at hd
    · exact h.old q d hd

/-- What `ClearClients` leaves. -/
structure Cleared (s t : ServerState) (others : List Ptr) : Prop extends Evolves s t others where
  owns : t.Owns others
  counts : t.counts = s.counts
  clients : t.srv.clients = .empty

/-- `ClearClients` deletes what the server owns and nothing else, and counts nothing. -/
theorem clearClients_sat (h : s.Owns others) :
    Exec.Sat E s.clearClients fun t => s.Cleared t others := by
  have hstart : s.Clearing s s.srv.clients (s.srv.clients.values ++ s.srv.clientsBuff) others := by
    refine ⟨h.nodup, h.live, rfl, fun x hx => ?_, fun _ _ => id, rfl, rfl, rfl, rfl⟩
    have hmem := h.registered x hx
    exact ⟨CELLServer.mem_held_of_entry hmem, h.keyed _ _ hmem⟩
  refine Exec.Sat.bind (Q := fun t => s.Clearing t s.srv.clients s.srv.clientsBuff others) ?_
    fun t ht => ?_
  · exact Exec.Sat.foldlM
      (I := fun ps t => s.Clearing t s.srv.clients (ps ++ s.srv.clientsBuff) others)
      (fun _ _ _ ht => ht.delete) _ s hstart
  have ht' : s.Clearing { t with srv := { t.srv with clients := .empty } } .empty
      s.srv.clientsBuff others :=
    ⟨ht.nodup, ht.live, ht.size, ht.registered, ht.old, ht.counts, rfl, ht.clientsBuff, ht.kind⟩
  refine Exec.Sat.bind (Q := fun t => s.Clearing t .empty [] others) ?_ fun u hu => ?_
  · rw [show t.srv.clientsBuff = s.srv.clientsBuff from ht.clientsBuff]
    exact Exec.Sat.foldlM (I := fun ps t => s.Clearing t .empty ps others)
      (fun _ _ _ ht => ht.delete) _ _ ht'
  have hframe : ∀ p ∈ others, u.heap.get? p = s.heap.get? p := by
    intro p hp
    obtain ⟨c, hc⟩ := (hu.live p).mpr hp
    rw [hc, hu.old p c hc]
  refine ⟨⟨fun p c hc => ⟨c, hu.old p c hc, rfl⟩, hframe, hu.size, ?_, hu.kind⟩, ⟨?_, ?_, ?_, ?_⟩,
    hu.counts, hu.clients⟩
  · simp [CELLServer.getClientCount, hu.clients, SortedMap.size]
  · simpa [CELLServer.held, hu.clients] using hu.nodup
  · intro p
    simpa [CELLServer.held, hu.clients] using hu.live p
  · intro k p hp
    simp [hu.clients] at hp
  · exact fun x hx => absurd (hu.registered x hx).1 List.not_mem_nil

end Sections

end ServerState

end CellNet
