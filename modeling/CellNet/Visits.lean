import CellNet.Ownership

/-!
# What a visit does to a client

The visits of the loops of a server thread : `CheckTime`, `ReadData`, `WriteData` and an
event of `epoll_wait`. Each says what becomes of the client and which events are raised,
as an effect (`CheckEffect`, `ReadEffect`, `WriteEffect`). A client of a select server is
read and written in two loops, one of an epoll server in one event : the effects are the
same two.

`ready` is whether the client is read or written at all. `RecvData` and `SendDataReal` may
be undefined, and so may `has` for a descriptor that is no position of the set : a visit
is where these are.
-/

namespace CellNet

/-! ## The effects -/

/-- `checkHeart`, and the removal of a client whose time is up. -/
inductive CheckEffect (dt : ℤ) (p : Ptr) (c : CELLClient) :
    Option CELLClient → List NetEvent → Prop
  | dead : CLIENT_HREAT_DEAD_TIME ≤ c.dtHeart + dt → CheckEffect dt p c none [.onNetLeave p]
  | alive : c.dtHeart + dt < CLIENT_HREAT_DEAD_TIME →
    CheckEffect dt p c (some { c with dtHeart := c.dtHeart + dt }) []

/-- `RecvData` of a client that is `ready`, and its removal if that fails. -/
inductive ReadEffect (ready : Prop) (r : RecvResult) (p : Ptr) (c : CELLClient) :
    Option CELLClient → List NetEvent → Prop
  | idle : ¬ready → ReadEffect ready r p c (some c) []
  | read {n : ℤ} {c' : CELLClient} : ready → c.recvData r = .ok (n, c') → SOCKET_ERROR ≠ n →
    ReadEffect ready r p c (some c') [.onNetRecv p (r.data c.recvBuff.free)]
  | failed {c' : CELLClient} : ready → c.recvData r = .ok (SOCKET_ERROR, c') →
    ReadEffect ready r p c none [.onNetRecv p (r.data c.recvBuff.free), .onNetLeave p]

/-- `SendDataReal` of a client that is `ready`, and its removal if that fails. -/
inductive WriteEffect (ready : Prop) (r : SendResult) (p : Ptr) (c : CELLClient) :
    Option CELLClient → List NetEvent → Prop
  | idle : ¬ready → WriteEffect ready r p c (some c) []
  | sent {n : ℤ} {sent : List UInt8} {c' : CELLClient} : ready →
    c.sendDataReal r = .ok (n, sent, c') → SOCKET_ERROR ≠ n → WriteEffect ready r p c (some c') []
  | failed {sent : List UInt8} {c' : CELLClient} : ready →
    c.sendDataReal r = .ok (SOCKET_ERROR, sent, c') →
    WriteEffect ready r p c none [.onNetLeave p]

section Functional

variable {ready ready' : Prop} {r : RecvResult} {w : SendResult} {p : Ptr} {c : CELLClient}
  {o o' : Option CELLClient} {es es' : List NetEvent}

theorem ReadEffect.unique (h : ReadEffect ready r p c o es) (h' : ReadEffect ready r p c o' es') :
    o = o' ∧ es = es' := by
  cases h <;> cases h' <;> simp_all

theorem WriteEffect.unique (h : WriteEffect ready w p c o es)
    (h' : WriteEffect ready w p c o' es') : o = o' ∧ es = es' := by
  cases h <;> cases h' <;> simp_all

theorem ReadEffect.congr (h : ReadEffect ready r p c o es) (hiff : ready ↔ ready') :
    ReadEffect ready' r p c o es := by
  rwa [← propext hiff]

theorem WriteEffect.congr (h : WriteEffect ready w p c o es) (hiff : ready ↔ ready') :
    WriteEffect ready' w p c o es := by
  rwa [← propext hiff]

/-- A client that was read keeps its send buffer and its descriptor. -/
theorem ReadEffect.recvBuff_only {c' : CELLClient} (h : ReadEffect ready r p c (some c') es) :
    ∃ b, c' = { c with recvBuff := b } := by
  cases h with
  | idle => exact ⟨c.recvBuff, rfl⟩
  | read _ hrecv => exact CELLClient.recvData_of_ok hrecv

end Functional

namespace ServerState

variable {E : UB → Prop} {s s' t : ServerState} {others : List Ptr} {p : Ptr} {k : SOCKET}
  {c : CELLClient}

/-! ## Heartbeat -/

/-- `CheckTime` removes a client whose time is up, and adds to the time of any other. -/
theorem checkClient_cases (hc : s.heap.get? p = some c) (dt : ℤ) :
    (CLIENT_HREAT_DEAD_TIME ≤ c.dtHeart + dt ∧ ∃ u t, checkClient dt s (c.sockfd, p) = .ok t ∧
      s.Updated u p { c with dtHeart := c.dtHeart + dt } [] ∧ u.Removed t c.sockfd p) ∨
    (c.dtHeart + dt < CLIENT_HREAT_DEAD_TIME ∧ ∃ t, checkClient dt s (c.sockfd, p) = .ok t ∧
      s.Updated t p { c with dtHeart := c.dtHeart + dt } []) := by
  let c' : CELLClient := { c with dtHeart := c.dtHeart + dt }
  let u : ServerState := { s with heap := s.heap.set p c' }
  have hu : s.Updated u p c' [] :=
    ⟨rfl, Heap.size_set, rfl, (List.append_nil _).symm, fun e he => absurd he List.not_mem_nil,
      ⟨c, hc, rfl⟩, fun q => Heap.get?_set hc⟩
  have hcall : (s.call p fun c => .ok (c.checkHeart dt)) =
      .ok (decide (CLIENT_HREAT_DEAD_TIME ≤ c.dtHeart + dt), u) := by
    rw [call, Heap.call, Heap.deref_eq hc]
    rfl
  rw [checkClient, hcall, Fallible.ok_bind]
  by_cases hdead : CLIENT_HREAT_DEAD_TIME ≤ c.dtHeart + dt
  · left
    obtain ⟨t, ht, hr⟩ := leave_erase hu.get?
    refine ⟨hdead, u, t.erase c.sockfd, ?_, hu, hr⟩
    simp only [decide_eq_true hdead, if_true, ht, Fallible.ok_bind, Fallible.pure_eq]
  · right
    refine ⟨not_le.mp hdead, u, ?_, hu⟩
    simp only [decide_eq_false hdead, Bool.false_eq_true, if_false, Fallible.pure_eq]

theorem checkClient_visited (dt : ℤ) (h : s.Owns others)
    (hp : (k, p) ∈ s.srv.clients.entries) :
    Exec.Sat E (checkClient dt s (k, p)) fun s' =>
      s.Visited (CheckEffect dt) s' others (k, p) := by
  obtain ⟨c, hc⟩ := h.get? (CELLServer.mem_held_of_entry hp)
  obtain rfl := h.key_eq hp hc
  rcases checkClient_cases hc dt with ⟨hdead, u, t, ht, hu, hr⟩ | ⟨halive, t, ht, hu⟩
  · rw [ht]
    exact hu.removed_visited hr h hp hc (.dead hdead)
  · rw [ht]
    exact hu.visited h hp hc (.alive halive)

/-! ## A call that may fail -/

/-- A select server removes a client whose call failed. -/
theorem Updated.leave_visited {R : Effect Ptr CELLClient NetEvent} {c' : CELLClient}
    {es : List NetEvent} {n : ℤ} (hu : s.Updated t p c' es) (hfd : c'.sockfd = c.sockfd)
    (h : s.Owns others) (hp : (c.sockfd, p) ∈ s.srv.clients.entries)
    (hc : s.heap.get? p = some c)
    (hfailed : SOCKET_ERROR = n → R p c none (es ++ [.onNetLeave p]))
    (hok : SOCKET_ERROR ≠ n → R p c (some c') es) :
    Exec.Sat E (if SOCKET_ERROR = n then do
        let s ← t.onClientLeave p
        return s.erase c.sockfd
      else return t) fun s' => s.Visited R s' others (c.sockfd, p) := by
  split
  · obtain ⟨u, hleave, hrm⟩ := leave_erase hu.get?
    rw [hfd] at hrm
    rw [hleave, Fallible.ok_bind]
    exact hu.removed_visited hrm h hp hc (hfailed ‹_›)
  · exact hu.visited h hp hc (hok ‹_›)

/-- An epoll server removes it with `rmClient`. -/
theorem Updated.rmClient_visited {R : Effect Ptr CELLClient NetEvent} {c' : CELLClient}
    {es : List NetEvent} (hu : s.Updated t p c' es) (h : s.Owns others)
    (hp : (k, p) ∈ s.srv.clients.entries) (hc : s.heap.get? p = some c)
    (hR : R p c none (es ++ [.onNetLeave p])) :
    Exec.Sat E (t.rmClient p) fun s' => s.Visited R s' others (k, p) ∧
      s'.heap.get? p = none := by
  have hk := hu.kept h (CELLServer.mem_held_of_entry hp)
  obtain ⟨u, hrmc, hrm⟩ := rmClient_eq hk.owns (hu.srv ▸ hp) hu.get?
  rw [hrmc]
  exact ⟨hu.removed_visited hrm h hp hc hR, by rw [hrm.heap, if_pos rfl]⟩

/-! ## The two loops of a select server -/

/-- `has` says whether the bit is set. -/
theorem has_sat {set : CELLFDSet} {fd : SOCKET} (h : Exec.Sat E (set.has fd) fun _ => True) :
    Exec.Sat E (set.has fd) fun b => b = decide (fd ∈ set.bits) := by
  unfold CELLFDSet.has at h ⊢
  split
  · rfl
  · rename_i hfd
    rwa [if_neg hfd] at h

theorem readClient_visited (sys : SysCalls) (fdRead : CELLFDSet) (h : s.Owns others)
    (hp : (k, p) ∈ s.srv.clients.entries) (hc : s.heap.get? p = some c)
    (hfd : Exec.Sat E (fdRead.has k) fun _ => True)
    (hrecv : Exec.Sat E (c.recvData (sys.recv p)) fun _ => True) :
    Exec.Sat E (readClient sys fdRead s (k, p)) fun s' =>
      s.Visited (fun p c => ReadEffect (c.sockfd ∈ fdRead.bits) (sys.recv p) p c) s' others
        (k, p) := by
  obtain rfl := h.key_eq hp hc
  rw [readClient, sockfd_eq hc, Fallible.ok_bind]
  refine (has_sat hfd).bind fun b hb => ?_
  split
  · have hready : c.sockfd ∈ fdRead.bits := by simp_all
    refine (recvData_sat hc hrecv).bind ?_
    rintro ⟨n, t⟩ ⟨c', hr, hu⟩
    dsimp only at hr hu ⊢
    have hfd' : c'.sockfd = c.sockfd := by
      obtain ⟨b, rfl⟩ := CELLClient.recvData_of_ok hr
      rfl
    exact hu.leave_visited hfd' h hp hc (fun hn => .failed hready (hn ▸ hr))
      fun hn => .read hready hr hn
  · refine Visited.idle h hc (.idle ?_)
    simp_all

theorem writeClient_visited (sys : SysCalls) (fdWrite : CELLFDSet) (h : s.Owns others)
    (hp : (k, p) ∈ s.srv.clients.entries) (hc : s.heap.get? p = some c)
    (hfd : Exec.Sat E (fdWrite.has k) fun _ => True)
    (hsend : Exec.Sat E (c.sendDataReal (sys.send p)) fun _ => True) :
    Exec.Sat E (writeClient sys fdWrite s (k, p)) fun s' =>
      s.Visited (fun p c => WriteEffect (c.needWrite = true ∧ c.sockfd ∈ fdWrite.bits)
        (sys.send p) p c) s' others (k, p) := by
  obtain rfl := h.key_eq hp hc
  rw [writeClient, Heap.deref_eq hc, Fallible.ok_bind]
  split
  swap
  · exact Visited.idle h hc (.idle fun hready => absurd hready.1 ‹_›)
  refine (has_sat hfd).bind fun b hb => ?_
  split
  · have hready : c.needWrite = true ∧ c.sockfd ∈ fdWrite.bits := by simp_all
    refine (sendDataReal_sat hc hsend).bind ?_
    rintro ⟨n, t⟩ ⟨sent, c', hr, hu⟩
    dsimp only at hr hu ⊢
    have hfd' : c'.sockfd = c.sockfd := by
      obtain ⟨b, rfl⟩ := CELLClient.sendDataReal_of_ok hr
      rfl
    exact hu.leave_visited hfd' h hp hc (fun hn => .failed hready (hn ▸ hr))
      fun hn => .sent hready hr hn
  · refine Visited.idle h hc (.idle ?_)
    simp_all

/-! ## An event of an epoll server -/

theorem onWritable_visited (sys : SysCalls) (ev : EpollEvent) (h : s.Owns others)
    (hp : (k, p) ∈ s.srv.clients.entries) (hc : s.heap.get? p = some c)
    (hsend : Exec.Sat E (c.sendDataReal (sys.send p)) fun _ => True) :
    Exec.Sat E (onWritable sys s ev p) fun s' =>
      s.Visited (fun p c => WriteEffect (ev.epollout = true) (sys.send p) p c) s' others
        (k, p) := by
  unfold onWritable
  split
  · rename_i hready
    refine (sendDataReal_sat hc hsend).bind ?_
    rintro ⟨n, t⟩ ⟨sent, c', hr, hu⟩
    dsimp only at hr hu ⊢
    split
    · rename_i hn
      subst hn
      exact (hu.rmClient_visited h hp hc (.failed hready hr)).mono fun _ hs' => hs'.1
    · exact hu.visited h hp hc (.sent hready hr ‹_›)
  · exact Visited.idle h hc (.idle ‹_›)

/-- An event is a read and then, if the client is still there, a write. -/
theorem onEvent_visited (sys : SysCalls) {ev : EpollEvent} (hev : ev.ptr = some p)
    (h : s.Owns others) (hp : (k, p) ∈ s.srv.clients.entries) (hc : s.heap.get? p = some c)
    (hrecv : Exec.Sat E (c.recvData (sys.recv p)) fun _ => True)
    (hsend : ∀ b, Exec.Sat E (({ c with recvBuff := b } : CELLClient).sendDataReal (sys.send p))
      fun _ => True) :
    Exec.Sat E (onEvent sys s ev) fun s' => s.Visited
      (Effect.andThen (fun p c => ReadEffect (ev.epollin = true) (sys.recv p) p c)
        fun p c => WriteEffect (ev.epollout = true) (sys.send p) p c) s' others (k, p) := by
  rw [onEvent, hev]
  dsimp only
  split
  · rename_i hready
    refine (recvData_sat hc hrecv).bind ?_
    rintro ⟨n, t⟩ ⟨c', hr, hu⟩
    dsimp only at hr hu ⊢
    split
    · rename_i hn
      subst hn
      exact (hu.rmClient_visited (R := fun p c => ReadEffect (ev.epollin = true) (sys.recv p) p c)
        h hp hc (.failed hready hr)).mono fun _ hs' => hs'.1.then_absent hs'.2
    · have hk := hu.kept h (CELLServer.mem_held_of_entry hp)
      have hv := hu.visited (R := fun p c => ReadEffect (ev.epollin = true)
        (sys.recv p) p c) h hp hc (.read hready hr ‹_›)
      obtain ⟨b, rfl⟩ := CELLClient.recvData_of_ok hr
      exact (onWritable_visited sys ev hk.owns (hu.srv ▸ hp) hu.get? (hsend b)).mono
        fun s' hs' => hv.trans hs'
  · have hv := Visited.idle (k := k) (R := fun p c => ReadEffect (ev.epollin = true)
      (sys.recv p) p c) h hc (.idle ‹_›)
    exact (onWritable_visited sys ev h hp hc (hsend c.recvBuff)).mono fun s' hs' => hv.trans hs'

end ServerState

end CellNet
