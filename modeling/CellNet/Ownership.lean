import CellNet.Server
import CellNet.Sweep

/-!
# Who owns a client

`Owns s others` : the undeleted clients are those in the map of the server, those
waiting for it, and the clients `others` of other servers, each of them once; every
entry of the map is keyed by the descriptor of its client, and what is registered for
epoll is in the map. `Kept s s' others` is what a section of the thread leaves when it
started with `Owns` : the ownership, the clients of the others untouched, no descriptor
changed, no client more than before, and the client counter moved with the map
(`Balanced`).

A section uses a client in one of two ways. `Updated` is a call on a client, and
`Removed` a client that leaves the server : both give `Kept`. `Visited R` is a visit of one
client, with the effect `R` on it and the events about it. A loop over the clients
(`sweep`) is then `Toured` : it gives `Kept`, it is a sweep of the `table` with the effect
`R`, and it sets `_clients_change` if it changes the map (`Shrunk`).
-/

namespace CellNet

namespace CELLServer

variable (srv : CELLServer) (fd : SOCKET)

variable {srv} in
theorem kind_eq_select : srv.kind = .select ↔ ∃ d, srv.derived = .select d := by
  cases hd : srv.derived <;> simp [kind, hd]

variable {srv} in
theorem kind_eq_epoll : srv.kind = .epoll ↔ ∃ d, srv.derived = .epoll d := by
  cases hd : srv.derived <;> simp [kind, hd]

@[simp] theorem clients_closed : (srv.closed fd).clients = srv.clients := by
  unfold closed
  split <;> rfl

@[simp] theorem clientsBuff_closed : (srv.closed fd).clientsBuff = srv.clientsBuff := by
  unfold closed
  split <;> rfl

@[simp] theorem clientsChange_closed : (srv.closed fd).clientsChange = srv.clientsChange := by
  unfold closed
  split <;> rfl

@[simp] theorem kind_closed : (srv.closed fd).kind = srv.kind := by
  cases hd : srv.derived <;> simp [closed, kind, hd]

theorem registered_closed :
    (srv.closed fd).registered = srv.registered.filter fun e => e.1 ≠ fd := by
  cases hd : srv.derived <;> simp [closed, registered, hd, CELLEpoll.close]

@[simp] theorem mem_held {p : Ptr} :
    p ∈ srv.held ↔ (∃ k, (k, p) ∈ srv.clients.entries) ∨ p ∈ srv.clientsBuff := by
  simp [held, SortedMap.values]

variable {srv} in
theorem mem_held_of_entry {k : SOCKET} {p : Ptr} (h : (k, p) ∈ srv.clients.entries) :
    p ∈ srv.held :=
  srv.mem_held.mpr (Or.inl ⟨k, h⟩)

theorem length_held : srv.held.length = srv.getClientCount := by
  simp [held, getClientCount]

end CELLServer

namespace ServerState

/-! ## Ownership -/

/-- The undeleted clients are those the server owns and `others`. -/
structure Owns (s : ServerState) (others : List Ptr) : Prop where
  nodup : (s.srv.held ++ others).Nodup
  live : ∀ p, (∃ c, s.heap.get? p = some c) ↔ p ∈ s.srv.held ++ others
  keyed : ∀ k p, (k, p) ∈ s.srv.clients.entries → ∃ c, s.heap.get? p = some c ∧ c.sockfd = k
  registered : ∀ x ∈ s.srv.registered, (x.1, x.2.ptr) ∈ s.srv.clients.entries

/-- The client counter moved with the map, and stayed an `int`. -/
structure Balanced (s s' : ServerState) : Prop where
  count : (s'.counts.clientCount - s'.srv.clients.size) % 4294967296 =
    (s.counts.clientCount - s.srv.clients.size) % 4294967296
  int : int32 s.counts.clientCount = s.counts.clientCount →
    int32 s'.counts.clientCount = s'.counts.clientCount

/-- The clients of `s'` are clients of `s`, and those of the others are untouched. -/
structure Evolves (s s' : ServerState) (others : List Ptr) : Prop where
  old : ∀ p c', s'.heap.get? p = some c' → ∃ c, s.heap.get? p = some c ∧ c'.sockfd = c.sockfd
  frame : ∀ p ∈ others, s'.heap.get? p = s.heap.get? p
  size : s'.heap.size = s.heap.size
  held : s'.srv.getClientCount ≤ s.srv.getClientCount
  kind : s'.srv.kind = s.srv.kind

/-- What a section leaves. -/
structure Kept (s s' : ServerState) (others : List Ptr) : Prop extends Evolves s s' others where
  owns : s'.Owns others
  balanced : s.Balanced s'

/-- `s'` is `s` after calls on the client `p`, which left it in the state `c'` and raised
the events `es`. -/
structure Updated (s s' : ServerState) (p : Ptr) (c' : CELLClient) (es : List NetEvent) :
    Prop where
  srv : s'.srv = s.srv
  size : s'.heap.size = s.heap.size
  clientCount : s'.counts.clientCount = s.counts.clientCount
  events : s'.events = s.events ++ es
  about : ∀ e ∈ es, e.pClient = p
  old : ∃ c, s.heap.get? p = some c ∧ c'.sockfd = c.sockfd
  heap : ∀ q, s'.heap.get? q = if q = p then some c' else s.heap.get? q

/-- `s'` is `s` after the client `p` has left, and its entry with the key `k`. -/
structure Removed (s s' : ServerState) (k : SOCKET) (p : Ptr) : Prop where
  size : s'.heap.size = s.heap.size
  heap : ∀ q, s'.heap.get? q = if q = p then none else s.heap.get? q
  counts : s'.counts = s.counts.onNetLeave
  events : s'.events = s.events ++ [.onNetLeave p]
  clients : s'.srv.clients = s.srv.clients.erase k
  clientsBuff : s'.srv.clientsBuff = s.srv.clientsBuff
  clientsChange : s'.srv.clientsChange = true
  kind : s'.srv.kind = s.srv.kind
  registered : s'.srv.registered = s.srv.registered.filter fun e => e.1 ≠ k

variable {s s' s'' : ServerState} {others : List Ptr} {p : Ptr} {k : SOCKET}
  {c c' : CELLClient} {es : List NetEvent}

namespace Owns

theorem not_mem_others (h : s.Owns others) (hp : p ∈ s.srv.held) : p ∉ others :=
  List.disjoint_of_nodup_append h.nodup hp

/-- A client is not in the map and in the buffer. -/
theorem not_mem_clientsBuff (h : s.Owns others) (hp : p ∈ s.srv.clients.values) :
    p ∉ s.srv.clientsBuff :=
  List.disjoint_of_nodup_append (List.nodup_append.mp h.nodup).1 hp

theorem get? (h : s.Owns others) (hp : p ∈ s.srv.held) : ∃ c, s.heap.get? p = some c :=
  (h.live p).mpr (List.mem_append_left _ hp)

/-- An entry is found under the descriptor of its client. -/
theorem key_eq (h : s.Owns others) (hp : (k, p) ∈ s.srv.clients.entries)
    (hc : s.heap.get? p = some c) : c.sockfd = k := by
  obtain ⟨c', hc', hk⟩ := h.keyed k p hp
  rw [hc, Option.some.injEq] at hc'
  rw [hc', hk]

end Owns

namespace Kept

theorem refl (h : s.Owns others) : s.Kept s others where
  old _ c' hc' := ⟨c', hc', rfl⟩
  frame _ _ := rfl
  size := rfl
  held := le_refl _
  kind := rfl
  owns := h
  balanced := ⟨rfl, id⟩

theorem trans (h : s.Kept s' others) (h' : s'.Kept s'' others) : s.Kept s'' others where
  old p c'' hc'' := by
    obtain ⟨c', hc', hfd'⟩ := h'.old p c'' hc''
    obtain ⟨c, hc, hfd⟩ := h.old p c' hc'
    exact ⟨c, hc, hfd'.trans hfd⟩
  frame p hp := (h'.frame p hp).trans (h.frame p hp)
  size := h'.size.trans h.size
  held := h'.held.trans h.held
  kind := h'.kind.trans h.kind
  owns := h'.owns
  balanced := ⟨h'.balanced.count.trans h.balanced.count, h'.balanced.int ∘ h.balanced.int⟩

end Kept

theorem Updated.get? (hu : s.Updated s' p c' es) : s'.heap.get? p = some c' := by
  rw [hu.heap, if_pos rfl]

theorem Updated.refl (hc : s.heap.get? p = some c) : s.Updated s p c [] where
  srv := rfl
  size := rfl
  clientCount := rfl
  events := (List.append_nil _).symm
  about e he := absurd he List.not_mem_nil
  old := ⟨c, hc, rfl⟩
  heap q := by
    split
    · rename_i hq
      rw [hq, hc]
    · rfl

theorem Updated.trans {c'' : CELLClient} {es' : List NetEvent} (hu : s.Updated s' p c' es)
    (hu' : s'.Updated s'' p c'' es') : s.Updated s'' p c'' (es ++ es') where
  srv := hu'.srv.trans hu.srv
  size := hu'.size.trans hu.size
  clientCount := hu'.clientCount.trans hu.clientCount
  events := by rw [hu'.events, hu.events, List.append_assoc]
  about e he := (List.mem_append.mp he).elim (hu.about e) (hu'.about e)
  old := by
    obtain ⟨c, hc, hfd⟩ := hu.old
    obtain ⟨d, hd, hfd'⟩ := hu'.old
    obtain rfl := Option.some.inj (hu.get?.symm.trans hd)
    exact ⟨c, hc, hfd'.trans hfd⟩
  heap q := by
    rw [hu'.heap, hu.heap]
    split <;> rfl

/-- Only what ownership is about counts. -/
theorem Kept.of_eq (h : s.Owns others) (hheap : s'.heap = s.heap)
    (hcount : s'.counts.clientCount = s.counts.clientCount)
    (hclients : s'.srv.clients = s.srv.clients) (hbuff : s'.srv.clientsBuff = s.srv.clientsBuff)
    (hkind : s'.srv.kind = s.srv.kind)
    (hreg : ∀ x ∈ s'.srv.registered, (x.1, x.2.ptr) ∈ s.srv.clients.entries) :
    s.Kept s' others := by
  have hheld : s'.srv.held = s.srv.held := by
    rw [CELLServer.held, CELLServer.held, hclients, hbuff]
  refine ⟨⟨?_, ?_, by rw [hheap], ?_, hkind⟩, ⟨?_, ?_, ?_, ?_⟩, ?_⟩
  · rw [hheap]
    exact fun p c hc => ⟨c, hc, rfl⟩
  · exact fun p _ => by rw [hheap]
  · rw [← CELLServer.length_held, ← CELLServer.length_held, hheld]
  · rw [hheld]
    exact h.nodup
  · rw [hheld, hheap]
    exact h.live
  · rw [hclients, hheap]
    exact h.keyed
  · rw [hclients]
    exact hreg
  · exact ⟨by rw [hclients, hcount], fun hint => by rwa [hcount]⟩

/-- A call on an owned client keeps everything. -/
theorem Updated.kept (hu : s.Updated s' p c' es) (h : s.Owns others) (hp : p ∈ s.srv.held) :
    s.Kept s' others := by
  obtain ⟨hsrv, hsize, hcount, -, -, ⟨c, hc, hfd⟩, hget⟩ := hu
  have hold : ∀ q d, s'.heap.get? q = some d →
      ∃ c, s.heap.get? q = some c ∧ d.sockfd = c.sockfd := by
    intro q d hd
    rw [hget] at hd
    split at hd
    · rename_i hq
      obtain rfl : c' = d := by simpa using hd
      exact ⟨c, hq ▸ hc, hfd⟩
    · exact ⟨d, hd, rfl⟩
  refine ⟨⟨hold, ?_, hsize, ?_, by rw [hsrv]⟩, ⟨?_, ?_, ?_, ?_⟩, ?_⟩
  · intro q hq
    rw [hget, if_neg]
    rintro rfl
    exact h.not_mem_others hp hq
  · rw [hsrv]
  · rw [hsrv]
    exact h.nodup
  · intro q
    rw [hsrv, ← h.live q, hget]
    split
    · rename_i hq
      subst hq
      simp [hc]
    · rfl
  · intro k q hq
    rw [hsrv] at hq
    obtain ⟨d, hd, hk⟩ := h.keyed k q hq
    rw [hget]
    split
    · rename_i hqp
      subst hqp
      rw [hc, Option.some.injEq] at hd
      exact ⟨c', rfl, by rw [hfd, hd, hk]⟩
    · exact ⟨d, hd, hk⟩
  · rw [hsrv]
    exact h.registered
  · exact ⟨by rw [hsrv, hcount], fun hint => by rwa [hcount]⟩

/-- A client that leaves takes its entry, its registration and its count with it. -/
theorem Removed.kept (hr : s.Removed s' k p) (h : s.Owns others)
    (hp : (k, p) ∈ s.srv.clients.entries) : s.Kept s' others := by
  have hperm := SortedMap.erase_perm hp
  have hsize : s.srv.clients.size = s'.srv.clients.size + 1 := by
    rw [hr.clients, SortedMap.size, hperm.length_eq, List.length_cons, SortedMap.size]
  have hheld : (s.srv.held ++ others).Perm (p :: (s'.srv.held ++ others)) := by
    have hvalues : s.srv.clients.values.Perm (p :: s'.srv.clients.values) := by
      rw [hr.clients]
      exact hperm.map Prod.snd
    unfold CELLServer.held
    rw [hr.clientsBuff]
    exact (hvalues.append_right _).append_right _
  have hnodup := hheld.nodup_iff.mp h.nodup
  have hne : p ∉ s'.srv.held ++ others := (List.nodup_cons.mp hnodup).1
  refine ⟨⟨?_, ?_, hr.size, ?_, hr.kind⟩, ⟨(List.nodup_cons.mp hnodup).2, ?_, ?_, ?_⟩, ?_⟩
  · intro q d hd
    rw [hr.heap] at hd
    split at hd
    · simp at hd
    · exact ⟨d, hd, rfl⟩
  · intro q hq
    rw [hr.heap, if_neg]
    rintro rfl
    exact hne (List.mem_append_right _ hq)
  · rw [CELLServer.getClientCount, CELLServer.getClientCount, hr.clientsBuff]
    omega
  · intro q
    rw [hr.heap]
    split
    · rename_i hq
      subst hq
      simpa using hne
    · rename_i hq
      rw [h.live q, hheld.mem_iff, List.mem_cons]
      exact or_iff_right hq
  · intro k' q hq
    rw [hr.clients, SortedMap.mem_erase] at hq
    rw [hr.heap, if_neg]
    · exact h.keyed k' q hq.1
    · rintro rfl
      obtain ⟨c, hc, hk⟩ := h.keyed k q hp
      exact hq.2 ((h.key_eq hq.1 hc).symm.trans hk)
  · intro x hx
    rw [hr.registered, List.mem_filter] at hx
    rw [hr.clients, SortedMap.mem_erase]
    exact ⟨h.registered x hx.1, by simpa using hx.2⟩
  · have hcount : s'.counts.clientCount = int32 (s.counts.clientCount - 1) := by
      rw [hr.counts, NetCounts.onNetLeave]
    refine ⟨?_, fun _ => by rw [hcount, int32_int32]⟩
    rw [hcount, Int.sub_emod, int32_emod, ← Int.sub_emod]
    congr 1
    omega

/-- The other entries stay. -/
theorem Removed.mem (hr : s.Removed s' k p) {e : SOCKET × Ptr}
    (hp : (k, p) ∈ s.srv.clients.entries) (he : e ∈ s.srv.clients.entries) (hne : e ≠ (k, p)) :
    e ∈ s'.srv.clients.entries := by
  rw [hr.clients, SortedMap.mem_erase]
  refine ⟨he, fun hk => hne ?_⟩
  obtain ⟨k', q⟩ := e
  obtain rfl : k' = k := hk
  rw [SortedMap.eq_of_mem he hp]

/-! ## The uses of a client -/

section Uses

variable {E : UB → Prop}

/-- A call of a function that keeps the descriptor. -/
theorem call_sat {β : Type} (hc : s.heap.get? p = some c) {f : CELLClient → Exec (β × CELLClient)}
    {Q : β → CELLClient → Prop} (hf : Exec.Sat E (f c) fun x => Q x.1 x.2 ∧ x.2.sockfd = c.sockfd) :
    Exec.Sat E (s.call p f) fun x => ∃ c', Q x.1 c' ∧ s.Updated x.2 p c' [] := by
  refine Exec.Sat.bind (Q := fun x => ∃ c', Q x.1 c' ∧ c'.sockfd = c.sockfd ∧
    x.2 = s.heap.set p c') (Heap.call_sat hc (hf.mono fun x hx => ⟨x.2, hx.1, hx.2, rfl⟩)) ?_
  rintro ⟨b, heap⟩ ⟨c', hQ, hfd, rfl⟩
  exact ⟨c', hQ, rfl, Heap.size_set, rfl, (List.append_nil _).symm,
    fun e he => absurd he List.not_mem_nil, ⟨c, hc, hfd⟩, fun q => Heap.get?_set hc⟩

theorem sockfd_eq (hc : s.heap.get? p = some c) : s.sockfd p = .ok c.sockfd := by
  rw [sockfd, Heap.deref_eq hc]
  rfl

theorem event_eq {e : NetEvent} (hc : s.heap.get? e.pClient = some c) : s.event e =
    .ok { s with counts := e.counted s.counts, events := s.events ++ [e] } := by
  rw [event, Heap.deref_eq hc]
  rfl

/-- An event that counts no client. -/
theorem event_updated {e : NetEvent} (hc : s.heap.get? e.pClient = some c)
    (he : (e.counted s.counts).clientCount = s.counts.clientCount) :
    ∃ t, s.event e = .ok t ∧ s.Updated t e.pClient c [e] := by
  refine ⟨_, event_eq hc, rfl, rfl, he, rfl, fun e' he' => ?_, ⟨c, hc, rfl⟩, fun q => ?_⟩
  · rw [List.mem_singleton.mp he']
  · split
    · rename_i hq
      rw [hq, hc]
    · rfl

/-- `delete` on a valid pointer. -/
theorem deleteClient_eq (hc : s.heap.get? p = some c) : ∃ heap,
    s.deleteClient p = .ok { s with heap, srv := s.srv.closed c.sockfd } ∧
      heap.size = s.heap.size ∧ ∀ q, heap.get? q = if q = p then none else s.heap.get? q := by
  obtain ⟨heap, hdel, hsize, hget⟩ := Heap.delete_eq hc
  refine ⟨heap, ?_, hsize, hget⟩
  rw [deleteClient, hdel, hc]
  rfl

/-- `OnClientLeave` and then the removal of the entry. -/
theorem leave_erase (hc : s.heap.get? p = some c) : ∃ t, s.onClientLeave p = .ok t ∧
    s.Removed (t.erase c.sockfd) c.sockfd p := by
  let u : ServerState :=
    { s with counts := s.counts.onNetLeave, events := s.events ++ [.onNetLeave p] }
  obtain ⟨heap, hdel, hsize, hget⟩ := deleteClient_eq (s := u.setChange) hc
  have hleave : s.onClientLeave p = u.setChange.deleteClient p := by
    rw [onClientLeave, event_eq (e := .onNetLeave p) hc]
    rfl
  refine ⟨_, hleave.trans hdel, ⟨hsize, hget, rfl, rfl, ?_, ?_, ?_, ?_, ?_⟩⟩
  · simp [u, erase, setChange]
  · simp [u, erase, setChange]
  · simp [u, erase, setChange]
  · exact CELLServer.kind_closed _ _
  · exact CELLServer.registered_closed _ _

/-- `rmClient` removes the entry first. -/
theorem rmClient_eq (h : s.Owns others) (hp : (k, p) ∈ s.srv.clients.entries)
    (hc : s.heap.get? p = some c) : ∃ t, s.rmClient p = .ok t ∧ s.Removed t k p := by
  obtain rfl := h.key_eq hp hc
  let u : ServerState := { s.erase c.sockfd with
    counts := s.counts.onNetLeave, events := s.events ++ [.onNetLeave p] }
  obtain ⟨heap, hdel, hsize, hget⟩ := deleteClient_eq (s := u.setChange) hc
  have hleave : s.rmClient p = u.setChange.deleteClient p := by
    rw [rmClient, sockfd_eq hc, Fallible.ok_bind, SortedMap.find_eq hp]
    simp only
    rw [onClientLeave, event_eq (s := s.erase c.sockfd) (e := .onNetLeave p) hc]
    rfl
  refine ⟨_, hleave.trans hdel, ⟨hsize, hget, rfl, rfl, ?_, ?_, ?_, ?_, ?_⟩⟩
  · simp [u, erase, setChange]
  · simp [u, erase, setChange]
  · simp [u, setChange]
  · exact CELLServer.kind_closed _ _
  · exact CELLServer.registered_closed _ _

/-- `RecvData` is a call and then an event. -/
theorem recvData_sat (hc : s.heap.get? p = some c) {r : RecvResult}
    (hr : Exec.Sat E (c.recvData r) fun _ => True) :
    Exec.Sat E (s.recvData p r) fun x => ∃ c', c.recvData r = .ok (x.1, c') ∧
      s.Updated x.2 p c' [.onNetRecv p (r.data c.recvBuff.free)] := by
  rw [recvData, Heap.deref_eq hc, Fallible.ok_bind]
  refine Exec.Sat.bind (call_sat (Q := fun n c' => c.recvData r = .ok (n, c')) hc ?_) ?_
  · refine hr.eq_ok.mono fun x hx => ⟨hx, ?_⟩
    obtain ⟨b, hb⟩ := CELLClient.recvData_of_ok hx
    rw [hb]
  · rintro ⟨nLen, t⟩ ⟨c', hrecv, hu⟩
    obtain ⟨u, hev, hu'⟩ := event_updated (e := .onNetRecv p (r.data c.recvBuff.free)) hu.get? rfl
    dsimp only
    rw [hev]
    exact ⟨c', hrecv, hu.trans hu'⟩

theorem sendDataReal_sat (hc : s.heap.get? p = some c) {r : SendResult}
    (hr : Exec.Sat E (c.sendDataReal r) fun _ => True) :
    Exec.Sat E (s.sendDataReal p r) fun x => ∃ sent c', c.sendDataReal r = .ok (x.1, sent, c') ∧
      s.Updated x.2 p c' [] := by
  have hcall : Exec.Sat E (s.sendDataReal p r) fun x => ∃ c',
      (∃ sent, c.sendDataReal r = .ok (x.1, sent, c')) ∧ s.Updated x.2 p c' [] := by
    refine call_sat (Q := fun n c' => ∃ sent, c.sendDataReal r = .ok (n, sent, c')) hc ?_
    refine hr.eq_ok.bind fun x hx => ⟨⟨x.2.1, hx⟩, ?_⟩
    obtain ⟨b, hb⟩ := CELLClient.sendDataReal_of_ok hx
    rw [hb]
  refine hcall.mono fun x hx => ?_
  obtain ⟨c', ⟨sent, hsent⟩, hu⟩ := hx
  exact ⟨sent, c', hsent, hu⟩

end Uses

/-! ## Visits -/

/-- A client with the events about it. -/
def table (s : ServerState) : Table Ptr CELLClient NetEvent :=
  fun p => (s.heap.get? p, s.events.filter fun e => e.pClient = p)

/-- The map has lost entries at most, and if it has then `_clients_change` is set. -/
structure Shrunk (s s' : ServerState) : Prop where
  sub : ∀ e ∈ s'.srv.clients.entries, e ∈ s.srv.clients.entries
  clientsBuff : s'.srv.clientsBuff = s.srv.clientsBuff
  marked : s'.srv.clientsChange = true ∨ (s'.srv.clients = s.srv.clients ∧
    s'.srv.derived = s.srv.derived ∧ s'.srv.clientsChange = s.srv.clientsChange)

/-- A visit of the client of the entry `e`, which may remove that entry. -/
structure Visited (R : Effect Ptr CELLClient NetEvent) (s s' : ServerState) (others : List Ptr)
    (e : SOCKET × Ptr) : Prop where
  kept : s.Kept s' others
  mem : ∀ e' ∈ s.srv.clients.entries, e' ≠ e → e' ∈ s'.srv.clients.entries
  shrunk : s.Shrunk s'
  visit : Visit R e.2 (s.table e.2) (s'.table e.2)
  frame : ∀ q, q ≠ e.2 → s'.table q = s.table q

/-- What a loop over the clients `ps` leaves. -/
structure Toured (R : Effect Ptr CELLClient NetEvent) (s s' : ServerState) (others ps : List Ptr) :
    Prop extends Kept s s' others where
  shrunk : s.Shrunk s'
  swept : Swept R ps s.table s'.table

theorem table_eq (hc : s.heap.get? p = some c) :
    s.table p = (some c, s.events.filter fun e => e.pClient = p) := by
  rw [table, hc]

theorem filter_about (hes : ∀ e ∈ es, e.pClient = p) (q : Ptr) :
    (es.filter fun e => e.pClient = q) = if q = p then es else [] := by
  split
  · rename_i hq
    exact List.filter_eq_self.mpr fun e he => by simp [hes e he, hq]
  · rename_i hq
    exact List.filter_eq_nil_iff.mpr fun e he => by simp [hes e he, Ne.symm hq]

/-- A step about one client changes its entry of the table only. -/
theorem table_of {o : Option CELLClient}
    (hget : ∀ q, s'.heap.get? q = if q = p then o else s.heap.get? q)
    (hevents : s'.events = s.events ++ es) (hes : ∀ e ∈ es, e.pClient = p) (q : Ptr) :
    s'.table q = if q = p then (o, (s.table p).2 ++ es) else s.table q := by
  rw [ServerState.table, hget, hevents, List.filter_append, filter_about hes]
  split
  · rename_i hq
    rw [hq]
    rfl
  · rw [List.append_nil]
    rfl

theorem Updated.table (hu : s.Updated s' p c' es) (q : Ptr) :
    s'.table q = if q = p then (some c', (s.table p).2 ++ es) else s.table q :=
  table_of hu.heap hu.events hu.about q

theorem Removed.table (hr : s.Removed s' k p) (q : Ptr) :
    s'.table q = if q = p then (none, (s.table p).2 ++ [.onNetLeave p]) else s.table q :=
  table_of hr.heap hr.events (fun e he => by rw [List.mem_singleton.mp he]; rfl) q

namespace Shrunk

theorem of_srv (h : s'.srv = s.srv) : s.Shrunk s' := by
  refine ⟨fun e he => h ▸ he, by rw [h], Or.inr ?_⟩
  rw [h]
  exact ⟨rfl, rfl, rfl⟩

theorem refl (s : ServerState) : s.Shrunk s :=
  .of_srv rfl

theorem trans (h : s.Shrunk s') (h' : s'.Shrunk s'') : s.Shrunk s'' := by
  refine ⟨fun e he => h.sub e (h'.sub e he), h'.clientsBuff.trans h.clientsBuff, ?_⟩
  rcases h'.marked with h' | ⟨hclients, hderived, hchange⟩
  · exact Or.inl h'
  · rcases h.marked with h | ⟨h₁, h₂, h₃⟩
    · exact Or.inl (hchange.trans h)
    · exact Or.inr ⟨hclients.trans h₁, hderived.trans h₂, hchange.trans h₃⟩

end Shrunk

theorem Removed.shrunk (hr : s.Removed s' k p) : s.Shrunk s' := by
  refine ⟨fun e he => ?_, hr.clientsBuff, Or.inl hr.clientsChange⟩
  rw [hr.clients, SortedMap.mem_erase] at he
  exact he.1

section Visits

variable {E : UB → Prop} {R S : Effect Ptr CELLClient NetEvent} {e : SOCKET × Ptr}

/-- A visit that leaves the client alone. -/
theorem Visited.idle (h : s.Owns others) (hc : s.heap.get? p = some c)
    (hR : R p c (some c) []) : s.Visited R s others (k, p) := by
  refine ⟨.refl h, fun _ he _ => he, .refl s, ?_, fun _ _ => rfl⟩
  have hvisit : Visit R p (some c, (s.table p).2) (some c, (s.table p).2 ++ []) := .present hR
  rwa [List.append_nil, ← show s.table p = (some c, (s.table p).2) from table_eq hc] at hvisit

/-- A visit that uses the client. -/
theorem Updated.visited (hu : s.Updated s' p c' es) (h : s.Owns others)
    (hp : (k, p) ∈ s.srv.clients.entries) (hc : s.heap.get? p = some c)
    (hR : R p c (some c') es) : s.Visited R s' others (k, p) where
  kept := hu.kept h (CELLServer.mem_held_of_entry hp)
  mem e he _ := hu.srv ▸ he
  shrunk := .of_srv hu.srv
  visit := by
    rw [hu.table, if_pos rfl, table_eq hc]
    exact .present hR
  frame q hq := by rw [hu.table, if_neg hq]

/-- A visit that uses the client and then removes it. -/
theorem Updated.removed_visited (hu : s.Updated s' p c' es) (hr : s'.Removed s'' k p)
    (h : s.Owns others) (hp : (k, p) ∈ s.srv.clients.entries) (hc : s.heap.get? p = some c)
    (hR : R p c none (es ++ [.onNetLeave p])) : s.Visited R s'' others (k, p) where
  kept := by
    have hk := hu.kept h (CELLServer.mem_held_of_entry hp)
    exact hk.trans (hr.kept hk.owns (hu.srv ▸ hp))
  mem e he hne := hr.mem (hu.srv ▸ hp) (hu.srv ▸ he) hne
  shrunk := (Shrunk.of_srv hu.srv).trans hr.shrunk
  visit := by
    rw [hr.table, if_pos rfl, hu.table, if_pos rfl, table_eq hc, List.append_assoc]
    exact .present hR
  frame q hq := by rw [hr.table, if_neg hq, hu.table, if_neg hq]

/-- Two visits of one client. -/
theorem Visited.trans (h : s.Visited R s' others e) (h' : s'.Visited S s'' others e) :
    s.Visited (R.andThen S) s'' others e where
  kept := h.kept.trans h'.kept
  mem e' he hne := h'.mem e' (h.mem e' he hne) hne
  shrunk := h.shrunk.trans h'.shrunk
  visit := h.visit.trans h'.visit
  frame q hq := (h'.frame q hq).trans (h.frame q hq)

/-- A client that was removed is not visited again. -/
theorem Visited.then_absent (h : s.Visited R s' others e) (hnone : s'.heap.get? e.2 = none) :
    s.Visited (R.andThen S) s' others e where
  kept := h.kept
  mem := h.mem
  shrunk := h.shrunk
  visit := by
    refine h.visit.trans ?_
    rw [table, hnone]
    exact .absent
  frame := h.frame

/-- A loop that only looks at the clients of the map. -/
theorem look_sat {β : Type} {f : β → SOCKET × Ptr → Exec β} {I : β → Prop} (h : s.Owns others)
    (hf : ∀ b k p c, I b → (k, p) ∈ s.srv.clients.entries → s.heap.get? p = some c →
      Exec.Sat E (f b (k, p)) I) (b : β) (hb : I b) :
    Exec.Sat E (s.srv.clients.entries.foldlM f b) I := by
  refine (Exec.Sat.foldlM (I := fun xs b => I b ∧ ∀ x ∈ xs, x ∈ s.srv.clients.entries) ?_ _ b
    ⟨hb, fun _ hx => hx⟩).mono fun _ hb => hb.1
  rintro ⟨k, p⟩ xs b ⟨hb, hmem⟩
  have hp := hmem _ List.mem_cons_self
  obtain ⟨c, hc⟩ := h.get? (CELLServer.mem_held_of_entry hp)
  exact (hf b k p c hb hp hc).mono
    fun _ hb' => ⟨hb', fun x hx => hmem x (List.mem_cons_of_mem _ hx)⟩

theorem Visited.mono (h : s.Visited R s' others e)
    (hRS : ∀ c o es, s.heap.get? e.2 = some c → R e.2 c o es → S e.2 c o es) :
    s.Visited S s' others e where
  kept := h.kept
  mem := h.mem
  shrunk := h.shrunk
  visit := h.visit.mono hRS
  frame := h.frame

/-- A visit, and then a loop over other clients. -/
theorem Visited.cons {ps : List Ptr} (hv : s.Visited R s' others e) (hnotin : e.2 ∉ ps)
    (h : s'.Toured R s'' others ps) : s.Toured R s'' others (e.2 :: ps) where
  toKept := hv.kept.trans h.toKept
  shrunk := hv.shrunk.trans h.shrunk
  swept := .cons hnotin hv.visit hv.frame h.swept

/-- A loop whose items have different targets, each visited with the effect `R`. -/
theorem sweep {α : Type} {visit : ServerState → α → Exec ServerState}
    (target : α → SOCKET × Ptr) (h : s.Owns others) {xs : List α}
    (hvisit : ∀ t, ∀ x ∈ xs, t.Owns others → target x ∈ t.srv.clients.entries →
      t.table (target x).2 = s.table (target x).2 →
      Exec.Sat E (visit t x) fun t' => t.Visited R t' others (target x))
    (hmem : ∀ x ∈ xs, target x ∈ s.srv.clients.entries)
    (hnodup : (xs.map fun x => (target x).2).Nodup) :
    Exec.Sat E (xs.foldlM visit s) fun s' =>
      s.Toured R s' others (xs.map fun x => (target x).2) := by
  induction xs generalizing s with
  | nil => exact ⟨.refl h, .refl s, .nil R _⟩
  | cons x xs ih =>
    obtain ⟨hnotin, hnodup'⟩ := List.nodup_cons.mp hnodup
    have hne : ∀ y ∈ xs, (target y).2 ≠ (target x).2 :=
      fun y hy heq => hnotin (List.mem_map.mpr ⟨y, hy, heq⟩)
    rw [List.foldlM_cons]
    refine (hvisit s x List.mem_cons_self h (hmem x List.mem_cons_self) rfl).bind fun t hv => ?_
    refine (ih hv.kept.owns (fun u y hy hu hyu htable => ?_) (fun y hy => ?_) hnodup').mono
      fun s' hs' => ?_
    · refine hvisit u y (List.mem_cons_of_mem _ hy) hu hyu ?_
      rw [htable, hv.frame _ (hne y hy)]
    · refine hv.mem _ (hmem y (List.mem_cons_of_mem _ hy)) fun heq => hne y hy (by rw [heq])
    · exact hv.cons hnotin hs'

/-- The clients of the map are different. -/
theorem Owns.nodup_values (h : s.Owns others) : s.srv.clients.values.Nodup :=
  (List.nodup_append.mp (List.nodup_append.mp h.nodup).1).1

/-- A loop over the map, started from the entries it has then. -/
theorem sweep_clients (visit : ServerState → SOCKET × Ptr → Exec ServerState) (h : s.Owns others)
    (hvisit : ∀ t k p c, t.Owns others → (k, p) ∈ s.srv.clients.entries →
      (k, p) ∈ t.srv.clients.entries → s.heap.get? p = some c → t.heap.get? p = some c →
      Exec.Sat E (visit t (k, p)) fun t' => t.Visited R t' others (k, p)) :
    Exec.Sat E (s.srv.clients.entries.foldlM visit s) fun s' =>
      s.Toured R s' others s.srv.clients.values := by
  refine sweep id h (fun t e he ht het htable => ?_) (fun _ he => he) h.nodup_values
  obtain ⟨c, hc⟩ := h.get? (CELLServer.mem_held_of_entry he)
  exact hvisit t e.1 e.2 c ht he het hc ((congrArg Prod.fst htable).trans hc)

/-! ## Tours -/

namespace Toured

variable {ps : List Ptr}

/-- Nothing happens if the effect leaves the clients alone. -/
theorem idle (h : s.Owns others)
    (hR : ∀ p ∈ ps, ∀ c, s.heap.get? p = some c → R p c (some c) []) :
    s.Toured R s others ps where
  toKept := .refl h
  shrunk := .refl s
  swept := (Swept.nil R s.table).widen (fun _ hp => absurd hp List.not_mem_nil)
    fun p hp _ c hc => hR p hp c hc

theorem trans (h : s.Toured R s' others ps) (h' : s'.Toured S s'' others ps) :
    s.Toured (R.andThen S) s'' others ps where
  toKept := h.toKept.trans h'.toKept
  shrunk := h.shrunk.trans h'.shrunk
  swept := h.swept.trans h'.swept

theorem mono (h : s.Toured R s' others ps)
    (hRS : ∀ p ∈ ps, ∀ c o es, s.heap.get? p = some c → R p c o es → S p c o es) :
    s.Toured S s' others ps where
  toKept := h.toKept
  shrunk := h.shrunk
  swept := h.swept.mono hRS

theorem widen {ps' : List Ptr} (h : s.Toured R s' others ps) (hsub : ∀ p ∈ ps, p ∈ ps')
    (hidle : ∀ p ∈ ps', p ∉ ps → ∀ c, s.heap.get? p = some c → R p c (some c) []) :
    s.Toured R s' others ps' where
  toKept := h.toKept
  shrunk := h.shrunk
  swept := h.swept.widen hsub hidle

/-- The entries left are those of the clients left. -/
theorem mem_iff (h : s.Toured R s' others ps) (ho : s.Owns others) {e : SOCKET × Ptr} :
    e ∈ s'.srv.clients.entries ↔
      e ∈ s.srv.clients.entries ∧ ∃ c, s'.heap.get? e.2 = some c := by
  constructor
  · exact fun he => ⟨h.shrunk.sub e he, h.owns.get? (CELLServer.mem_held_of_entry he)⟩
  · rintro ⟨he, c, hc⟩
    -- the client is held, and it is neither in the buffer nor of another server
    have hmem := (h.owns.live e.2).mp ⟨c, hc⟩
    have hnot := ho.not_mem_others (CELLServer.mem_held_of_entry (k := e.1) (p := e.2) he)
    have hheld := (List.mem_append.mp hmem).resolve_right hnot
    have hbuff : e.2 ∉ s'.srv.clientsBuff := by
      rw [h.shrunk.clientsBuff]
      exact ho.not_mem_clientsBuff (List.mem_map.mpr ⟨e, he, rfl⟩)
    obtain ⟨k, hk⟩ := (s'.srv.mem_held.mp hheld).resolve_right hbuff
    obtain ⟨c₀, hc₀, hfd⟩ := ho.keyed e.1 e.2 he
    have hke : k = e.1 := by rw [← ho.key_eq (h.shrunk.sub _ hk) hc₀, hfd]
    rwa [hke] at hk

/-- A client of the map that has left it was deleted. -/
theorem get?_eq_none (h : s.Toured R s' others ps) (ho : s.Owns others)
    (hp : p ∈ s.srv.clients.values) (hnot : p ∉ s'.srv.clients.values) :
    s'.heap.get? p = none := by
  obtain ⟨e, he, rfl⟩ := List.mem_map.mp hp
  by_contra hsome
  obtain ⟨c, hc⟩ := Option.ne_none_iff_exists'.mp hsome
  exact hnot (List.mem_map.mpr ⟨e, (h.mem_iff ho).mpr ⟨he, c, hc⟩, rfl⟩)

end Toured

end Visits

end ServerState

end CellNet
