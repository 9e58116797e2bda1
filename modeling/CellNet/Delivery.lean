import CellNet.Receive
import CellNet.SelectCache

/-!
# Received messages

`RecvData` only reads; the messages it completes are dispatched by `DoMsg`, behind
`DoNetEvents` in the same turn of `OnRun`. What was read of a client is what was dispatched
of it and what is stored (`Accounted`), and no message waits in a buffer except between
`DoNetEvents` and `DoMsg` (`Drained`). So a client that `CheckTime` or its read removes has
no message left. The write may remove it behind the read of the same round : a message that
this read completed is lost if the `send` fails.

`messages_dispatched_iff` : no message of a client that left is lost exactly when no
client's `send` fails in a round that completed a message of it. The client program
dispatches in its `RecvData`, before anything can remove the connection.
-/

namespace CellNet

/-- The client an action adds was just created. -/
def ServerAct.AddsNew : ServerAct → Prop
  | .addClient c => ∃ fd sendSize recvSize sendMem recvMem, 0 ≤ recvSize ∧
    recvSize < 2147483648 ∧ c = .new fd sendSize recvSize sendMem recvMem
  | _ => True

/-! ## The history of a client -/

/-- The bytes read by the events. -/
def NetEvent.recvBytes (es : List NetEvent) : List UInt8 :=
  es.flatMap fun
    | .onNetRecv _ bs => bs
    | _ => []

/-- The messages dispatched by the events. -/
def NetEvent.dispatched (es : List NetEvent) : List (List UInt8) :=
  es.filterMap fun
    | .onNetMsg _ m => some m
    | _ => none

open NetEvent (recvBytes dispatched)

@[simp] theorem NetEvent.recvBytes_append (es es' : List NetEvent) :
    recvBytes (es ++ es') = recvBytes es ++ recvBytes es' :=
  List.flatMap_append

@[simp] theorem NetEvent.dispatched_append (es es' : List NetEvent) :
    dispatched (es ++ es') = dispatched es ++ dispatched es' :=
  List.filterMap_append

@[simp] theorem NetEvent.recvBytes_msgs (p : Ptr) (fs : List (List UInt8)) :
    recvBytes (fs.map (.onNetMsg p)) = [] := by
  simp [recvBytes]

@[simp] theorem NetEvent.dispatched_msgs (p : Ptr) (fs : List (List UInt8)) :
    dispatched (fs.map (.onNetMsg p)) = fs := by
  simp [dispatched]

/-- What was read of the client, if it is there, is what was dispatched and what is
stored. -/
def Accounted (x : Option CELLClient × List NetEvent) : Prop :=
  ∀ c, x.1 = some c → c.recvBuff.WF ∧
    netmsgFraming.Takes (recvBytes x.2) (dispatched x.2) c.recvBuff.bytes

/-- No message is in front of the buffer of the client, if it is there. -/
def Drained (x : Option CELLClient × List NetEvent) : Prop :=
  ∀ c, x.1 = some c → ¬netmsgFraming.Complete c.recvBuff.bytes

/-- Every complete message of the client, if it is gone, was dispatched once and in
order. -/
def Delivered (x : Option CELLClient × List NetEvent) : Prop :=
  x.1 = none → ∃ t, netmsgFraming.Splits (recvBytes x.2) (dispatched x.2) t

section Histories

variable {p : Ptr} {c c' : CELLClient} {es es' : List NetEvent}
  {x y : Option CELLClient × List NetEvent}

theorem Accounted.of_none : Accounted (none, es) :=
  fun _ hc => by simp at hc

theorem Drained.of_none : Drained (none, es) :=
  fun _ hc => by simp at hc

theorem Drained.of_some (h : ¬netmsgFraming.Complete c.recvBuff.bytes) : Drained (some c, es) := by
  rintro _ ⟨⟩
  exact h

theorem Delivered.of_some : Delivered (some c, es) :=
  fun hnone => by simp at hnone

/-- Events that are neither a read nor a message do not count. -/
theorem Accounted.of_eq (hx : Accounted (some c, es)) (hbuff : c'.recvBuff = c.recvBuff)
    (hr : recvBytes es' = []) (hd : dispatched es' = []) : Accounted (some c', es ++ es') := by
  rintro _ ⟨⟩
  rw [hbuff, NetEvent.recvBytes_append, NetEvent.dispatched_append, hr, hd, List.append_nil,
    List.append_nil]
  exact hx c rfl

/-- A client that leaves has lost no message exactly when none is left in its buffer. -/
theorem Accounted.delivered_iff (hx : Accounted (some c, es)) (hr : recvBytes es' = [])
    (hd : dispatched es' = []) :
    Delivered (none, es ++ es') ↔ ¬netmsgFraming.Complete c.recvBuff.bytes := by
  rw [← (hx c rfl).2.splits_iff, Delivered, forall_prop_of_true rfl,
    NetEvent.recvBytes_append, NetEvent.dispatched_append, hr, hd, List.append_nil,
    List.append_nil]

/-! ## What the visits do to it -/

theorem Visit.joined {i : ℤ} (hv : Visit (ServerState.JoinEffect i) p x y)
    (hx : Accounted x) (hd : Drained x) :
    Accounted y ∧ Drained y ∧ (Delivered x → Delivered y) := by
  cases hv with
  | absent => exact ⟨hx, hd, id⟩
  | @present c _ _ _ hR =>
    obtain ⟨rfl, rfl⟩ := hR
    exact ⟨hx.of_eq rfl rfl rfl, .of_some (hd c rfl), fun _ => .of_some⟩

theorem Visit.checked {dt : ℤ} (hv : Visit (CheckEffect dt) p x y) (hx : Accounted x)
    (hd : Drained x) : Accounted y ∧ Drained y ∧ (Delivered x → Delivered y) := by
  cases hv with
  | absent => exact ⟨hx, hd, id⟩
  | @present c _ _ _ hR =>
    cases hR with
    | dead => exact ⟨.of_none, .of_none, fun _ => (hx.delivered_iff rfl rfl).mpr (hd c rfl)⟩
    | alive => exact ⟨hx.of_eq rfl rfl rfl, .of_some (hd c rfl), fun _ => .of_some⟩

theorem Visit.drained (hv : Visit ServerState.MsgEffect p x y) (hx : Accounted x) :
    Accounted y ∧ Drained y ∧ (Delivered x → Delivered y) := by
  cases hv with
  | absent => exact ⟨hx, .of_none, id⟩
  | @present c _ _ _ hR =>
    obtain ⟨c', fs, rfl, rfl, hR⟩ := hR
    obtain ⟨hwf, htakes⟩ := hx c rfl
    obtain ⟨hwf', hsplits⟩ := hR hwf
    refine ⟨?_, .of_some hsplits.not_complete, fun _ => .of_some⟩
    rintro _ ⟨⟩
    simp only [NetEvent.recvBytes_append, NetEvent.dispatched_append, NetEvent.recvBytes_msgs,
      NetEvent.dispatched_msgs, List.append_nil]
    exact ⟨hwf', htakes.trans hsplits.takes⟩

/-- What a read leaves. A client that was read and is still there has the bytes in its
buffer, and one that was removed by it had nothing to read. -/
theorem Visit.read {ready : Ptr → CELLClient → Prop} {r : Ptr → RecvResult}
    (hv : Visit (fun p c => ReadEffect (ready p c) (r p) p c) p (some c, es) y)
    (hx : Accounted (some c, es)) (hd : ¬netmsgFraming.Complete c.recvBuff.bytes) :
    Accounted y ∧ Delivered y ∧
      ((y = (some c, es) ∧ ¬ready p c) ∨ (y.1 = none ∧ (r p).data c.recvBuff.free = []) ∨
        ∃ b, y.1 = some { c with recvBuff := b } ∧ ready p c ∧
          b.bytes = c.recvBuff.bytes ++ (r p).data c.recvBuff.free) := by
  obtain ⟨hwf, htakes⟩ := hx c rfl
  obtain ⟨ret, b, hrecv, hwf', -, hbytes, hret⟩ := CELLClient.recvData_eq hwf (r p)
  cases hv with
  | present hR =>
    cases hR with
    | idle hready =>
      rw [List.append_nil]
      exact ⟨hx, .of_some, Or.inl ⟨rfl, hready⟩⟩
    | @read n c' hready h hn =>
      obtain ⟨rfl, rfl⟩ := Prod.mk.inj (Except.ok.inj (hrecv.symm.trans h))
      refine ⟨?_, .of_some, Or.inr (Or.inr ⟨b, rfl, hready, hbytes⟩)⟩
      rintro _ ⟨⟩
      refine ⟨hwf', ?_⟩
      have happend := htakes.append ((r p).data c.recvBuff.free)
      rw [← hbytes] at happend
      simpa [recvBytes, dispatched] using happend
    | @failed c' hready h =>
      obtain ⟨rfl, rfl⟩ := Prod.mk.inj (Except.ok.inj (hrecv.symm.trans h))
      have hnil : (r p).data c.recvBuff.free = [] := List.length_eq_zero_iff.mp hret.symm
      refine ⟨.of_none, (hx.delivered_iff ?_ rfl).mpr hd, Or.inr (Or.inl ⟨rfl, hnil⟩)⟩
      simp [recvBytes, hnil]

/-- A write loses a message exactly if it removes a client with one in its buffer. -/
theorem Visit.written {ready : Ptr → CELLClient → Prop} {r : Ptr → SendResult}
    (hv : Visit (fun p c => WriteEffect (ready p c) (r p) p c) p (some c, es) y)
    (hx : Accounted (some c, es)) : Accounted y ∧ (Delivered y ↔
      (ready p c → c.SendFails (r p) → ¬netmsgFraming.Complete c.recvBuff.bytes)) := by
  cases hv with
  | present hR =>
    cases hR with
    | idle hready =>
      rw [List.append_nil]
      exact ⟨hx, iff_of_true .of_some fun h => absurd h hready⟩
    | @sent n sent c' hready h hn =>
      obtain ⟨b, rfl⟩ := CELLClient.sendDataReal_of_ok h
      refine ⟨hx.of_eq rfl rfl rfl, iff_of_true .of_some fun _ hfails => ?_⟩
      exact absurd ((CELLClient.sendDataReal_error_iff h).mpr hfails) hn
    | @failed sent c' hready h =>
      have hfails := (CELLClient.sendDataReal_error_iff h).mp rfl
      refine ⟨.of_none, (hx.delivered_iff rfl rfl).trans ?_⟩
      exact ⟨fun hnot _ _ => hnot, fun hall => hall hready hfails⟩

end Histories

namespace ServerState

variable {s s' t : ServerState} {others : List Ptr} {sys : SysCalls} {p : Ptr}
  {h : Handler} {kind : ServerKind}

/-! ## The round -/

/-- In this round the client `c` at `p` is read up to the end of a message, and its `send`
then fails. -/
structure LosesMsg (s : ServerState) (sys : SysCalls) (p : Ptr) (c : CELLClient) : Prop where
  readable : s.Readable sys p c
  writable : s.Writable sys p c
  sendFails : c.SendFails (sys.send p)
  complete : netmsgFraming.Complete (c.recvBuff.bytes ++ (sys.recv p).data c.recvBuff.free)

/-- A round loses a message of a client with an empty buffer in this way only. -/
theorem netEffect_delivered {x y : Option CELLClient × List NetEvent}
    (hv : Visit (s.netEffect sys) p x y) (hx : Accounted x) (hd : Drained x) :
    Accounted y ∧ (Delivered x → (Delivered y ↔ ∀ c, x.1 = some c → ¬s.LosesMsg sys p c)) := by
  obtain ⟨z, hread, hwrite⟩ := hv.of_andThen
  obtain ⟨o, es⟩ := x
  cases o with
  | none =>
    cases hread
    cases hwrite
    exact ⟨hx, fun hD => iff_of_true hD fun c hc => by simp at hc⟩
  | some c =>
    have hnc := hd c rfl
    simp only [Option.some.injEq, forall_eq']
    obtain ⟨hz, hdel, hcases⟩ := hread.read hx hnc
    obtain ⟨o, es'⟩ := z
    rcases hcases with ⟨heq, hready⟩ | ⟨hnone, hnil⟩ | ⟨b, hsome, hready, hbytes⟩
    · -- it was not read
      obtain ⟨rfl, rfl⟩ := Prod.mk.inj heq
      obtain ⟨hy, hiff⟩ := hwrite.written hz
      exact ⟨hy, fun _ => iff_of_true (hiff.mpr fun _ _ => hnc) fun hl => hready hl.readable⟩
    · -- the read removed it
      obtain rfl : o = none := hnone
      cases hwrite
      refine ⟨hz, fun _ => iff_of_true hdel fun hl => hnc ?_⟩
      simpa [hnil] using hl.complete
    · obtain rfl : o = some { c with recvBuff := b } := hsome
      obtain ⟨hy, hiff⟩ := hwrite.written hz
      refine ⟨hy, fun _ => hiff.trans ⟨fun hall hl => ?_, fun hnot hw hf hc => hnot ?_⟩⟩
      · refine hall hl.writable hl.sendFails ?_
        rw [hbytes]
        exact hl.complete
      · rw [hbytes] at hc
        exact ⟨hready, hw, hf, hc⟩

/-! ## One section -/

/-- What a section does to the client `p`. `DoNetEvents` and `DoMsg` leave a client alone
that is not in the map, and `DoNetEvents` deletes what it takes out of the map. -/
inductive Served (s : ServerState) (sys : SysCalls) (t : ServerState) (p : Ptr) : Prop
  | idle (hrow : t.table p = s.table p)
    (hnot : s.srv.pc = .doNetEvents ∨ s.srv.pc = .doMsg → p ∉ s.srv.clients.values)
  | joined {i : ℤ} (hpc : s.srv.pc = .handOver)
    (hv : Visit (JoinEffect i) p (s.table p) (t.table p))
  | checked {dt : ℤ} (hpc : s.srv.pc = .checkTime)
    (hv : Visit (CheckEffect dt) p (s.table p) (t.table p))
  | polled (hpc : s.srv.pc = .doNetEvents) (hp : p ∈ s.srv.clients.values)
    (hleft : p ∉ t.srv.clients.values → t.heap.get? p = none)
    (hv : Visit (s.netEffect sys) p (s.table p) (t.table p))
  | drained (hpc : s.srv.pc = .doMsg) (hv : Visit MsgEffect p (s.table p) (t.table p))

theorem Served.of_eq (h : s.Served sys t p) (htable : s'.table = t.table)
    (hclients : s'.srv.clients = t.srv.clients) : s.Served sys s' p := by
  have hget : s'.heap.get? p = t.heap.get? p := congrArg Prod.fst (congrFun htable p)
  cases h with
  | idle hrow hnot => exact .idle (htable ▸ hrow) hnot
  | joined hpc hv => exact .joined hpc (htable ▸ hv)
  | checked hpc hv => exact .checked hpc (htable ▸ hv)
  | polled hpc hp hleft hv => exact .polled hpc hp (hclients ▸ hget ▸ hleft) (htable ▸ hv)
  | drained hpc hv => exact .drained hpc (htable ▸ hv)

theorem Rounded.served (hround : s.Rounded sys t others) (ho : s.Owns others)
    (hcache : ∀ d, s.srv.derived = .select d → s.CacheReal d) (hpc : s.srv.pc = .doNetEvents)
    (p : Ptr) : s.Served sys t p := by
  obtain ⟨u, hu, htable, hclients, -, htour⟩ := hround.toured ho hcache
  by_cases hp : p ∈ s.srv.clients.values
  · refine .polled hpc hp (htour.get?_eq_none hu (hclients ▸ hp)) ?_
    rw [← htable]
    exact htour.swept.visit p hp
  · refine .idle ?_ fun _ => hp
    rw [← htable]
    exact htour.swept.frame p hp

theorem Ran.served (hran : s.Ran sys others t) (ho : s.Owns others)
    (hcache : s.srv.pc ≠ .ended → ∀ d, s.srv.derived = .select d → s.CacheReal d)
    (hne : s.srv.pc ≠ .clearClients) (p : Ptr) : s.Served sys t p := by
  cases hran with
  | loop hpc => exact .idle rfl (by simp [hpc])
  | handOver hpc hover =>
    by_cases hp : p ∈ s.srv.clientsBuff
    · exact .joined hpc (hover.swept.visit p hp)
    · exact .idle (hover.swept.frame p hp) (by simp [hpc])
  | skip hpc => exact .idle rfl (by simp [hpc])
  | busy hpc => exact .idle rfl (by simp [hpc])
  | checkTime hpc htour =>
    by_cases hp : p ∈ s.srv.clients.values
    · exact .checked hpc (htour.swept.visit p hp)
    · exact .idle (htour.swept.frame p hp) (by simp [hpc])
  | round hpc hround =>
    exact (hround.served ho (hcache (by simp [hpc])) hpc p).of_eq rfl rfl
  | stop hpc hround =>
    exact (hround.served ho (hcache (by simp [hpc])) hpc p).of_eq rfl rfl
  | doMsg hpc htour =>
    by_cases hp : p ∈ s.srv.clients.values
    · exact .drained hpc (htour.swept.visit p hp)
    · exact .idle (htour.swept.frame p hp) fun _ => hp
  | clearClients hpc => exact absurd hpc hne

/-! ## The invariant -/

/-- A client that was not created yet has no history, what was read is accounted for, and
only a client in the map may have a message in its buffer, between `DoNetEvents` and
`DoMsg`. -/
structure Booked (s : ServerState) : Prop where
  fresh : ∀ p, s.heap.size ≤ p → (s.table p).2 = []
  accounted : ∀ p, Accounted (s.table p)
  drained : s.srv.pc ≠ .clearClients → ∀ p, (s.srv.pc = .doMsg → p ∉ s.srv.clients.values) →
    Drained (s.table p)

/-- The invariant of a server, up to the end of its thread. -/
structure MsgOwned (s : ServerState) : Prop extends CacheOwned s where
  booked : s.srv.pc ≠ .ended → s.Booked

theorem MsgOwned.init (hinit : (server h kind).init s) : s.MsgOwned := by
  refine ⟨.init hinit, fun _ => ?_⟩
  obtain ⟨hheap, hevents, -⟩ := hinit
  have hrow : ∀ p, s.table p = (none, []) := fun p => by simp [table, hheap, hevents]
  refine ⟨fun p _ => by rw [hrow], fun p => ?_, fun _ p _ => ?_⟩
  · rw [hrow]
    exact .of_none
  · rw [hrow]
    exact .of_none

/-- Nothing has happened to a client that was not created yet. -/
theorem Served.fresh (hserved : s.Served sys t p) (hnone : s.heap.get? p = none) :
    t.table p = s.table p := by
  have hrow : s.table p = (none, (s.table p).2) := by rw [table, hnone]
  have habsent : ∀ {R : Effect Ptr CELLClient NetEvent},
      Visit R p (s.table p) (t.table p) → t.table p = s.table p := by
    intro R hv
    rw [hrow] at hv ⊢
    generalize t.table p = y at hv
    cases hv
    rfl
  cases hserved with
  | idle hrow => exact hrow
  | joined _ hv => exact habsent hv
  | checked _ hv => exact habsent hv
  | polled _ _ _ hv => exact habsent hv
  | drained _ hv => exact habsent hv

/-- What a section does to the history of a client. -/
theorem Served.booked (hserved : s.Served sys t p) (hs : s.Booked)
    (hne : s.srv.pc ≠ .clearClients) : Accounted (t.table p) ∧
      ((s.srv.pc = .doNetEvents → p ∉ t.srv.clients.values) → Drained (t.table p)) ∧
      (Delivered (s.table p) → (Delivered (t.table p) ↔ (s.srv.pc = .doNetEvents →
        p ∈ s.srv.clients.values → ∀ c, s.heap.get? p = some c → ¬s.LosesMsg sys p c))) := by
  have hx := hs.accounted p
  cases hserved with
  | idle hrow hnot =>
    rw [hrow]
    refine ⟨hx, fun _ => hs.drained hne p fun hpc => hnot (Or.inr hpc), fun hD => ?_⟩
    exact iff_of_true hD fun hpc hp => absurd hp (hnot (Or.inl hpc))
  | joined hpc hv =>
    obtain ⟨hy, hd, hD⟩ := hv.joined hx (hs.drained hne p (by simp [hpc]))
    exact ⟨hy, fun _ => hd, fun h => iff_of_true (hD h) (by simp [hpc])⟩
  | checked hpc hv =>
    obtain ⟨hy, hd, hD⟩ := hv.checked hx (hs.drained hne p (by simp [hpc]))
    exact ⟨hy, fun _ => hd, fun h => iff_of_true (hD h) (by simp [hpc])⟩
  | polled hpc hp hleft hv =>
    obtain ⟨hy, hD⟩ := netEffect_delivered hv hx (hs.drained hne p (by simp [hpc]))
    refine ⟨hy, fun hout => ?_, fun h => (hD h).trans ?_⟩
    · rw [table, hleft (hout hpc)]
      exact .of_none
    · exact ⟨fun hall _ _ => hall, fun hall => hall hpc hp⟩
  | drained hpc hv =>
    obtain ⟨hy, hd, hD⟩ := hv.drained hx
    exact ⟨hy, fun _ => hd, fun h => iff_of_true (hD h) (by simp [hpc])⟩

/-- A new client has no history. -/
theorem Booked.addClient (hs : s.Booked) {c : CELLClient}
    (hnew : ServerAct.AddsNew (.addClient c)) :
    (s.addClient c).Booked ∧ ∀ p, Delivered (s.table p) → Delivered ((s.addClient c).table p) := by
  have hrow : ∀ p, (s.addClient c).table p =
      if p = s.heap.size then (some c, []) else s.table p := by
    intro p
    have hget : (s.addClient c).heap.get? p =
        if p = s.heap.size then some c else s.heap.get? p := Heap.get?_new
    rw [table, hget]
    split
    · rename_i hp
      exact congrArg _ (hs.fresh p (le_of_eq hp.symm))
    · rfl
  obtain ⟨fd, sendSize, recvSize, sendMem, recvMem, h0, hlt, rfl⟩ := hnew
  refine ⟨⟨fun p hp => ?_, fun p => ?_, fun hpc p hnot => ?_⟩, fun p hD => ?_⟩
  · have hsize : s.heap.size < p := Heap.size_new.symm.trans_le hp
    rw [hrow, if_neg (Nat.ne_of_gt hsize)]
    exact hs.fresh p hsize.le
  · rw [hrow]
    split
    · rintro _ ⟨⟩
      rw [CELLClient.recvBuff_new, CELLBuffer.bytes_new]
      exact ⟨CELLBuffer.new_wf h0 hlt recvMem, .start⟩
    · exact hs.accounted p
  · rw [hrow]
    split
    · refine .of_some ?_
      rw [CELLClient.recvBuff_new, CELLBuffer.bytes_new]
      exact netmsgFraming_not_complete_nil
    · exact hs.drained hpc p hnot
  · rw [hrow]
    split
    · exact .of_some
    · exact hD

/-- The round of the action loses no message. -/
def KeepsMsgs (s : ServerState) : ServerAct → Prop
  | .work sys => s.srv.pc = .doNetEvents → ∀ p ∈ s.srv.clients.values, ∀ c,
    s.heap.get? p = some c → ¬s.LosesMsg sys p c
  | _ => True

/-- A step keeps the invariant, and loses messages only in a round that does. -/
theorem MsgOwned.stepped {a : ServerAct} (hs : s.MsgOwned) (hnew : a.AddsNew)
    (hstep : (server h kind).step s a (.ok t)) (hne : t.srv.pc ≠ .ended) :
    s.srv.pc ≠ .ended ∧ t.Booked ∧ ((∀ p, Delivered (s.table p)) →
      ((∀ p, Delivered (t.table p)) ↔ s.KeepsMsgs a)) := by
  cases hs.toOwned.stepped hstep with
  | added =>
    obtain ⟨hbooked, hD⟩ := (hs.booked hne).addClient hnew
    exact ⟨hne, hbooked, fun hall => iff_of_true (fun p => hD p (hall p)) trivial⟩
  | closed =>
    have hb := hs.booked hne
    exact ⟨hne, ⟨hb.fresh, hb.accounted, hb.drained⟩, fun hall => iff_of_true hall trivial⟩
  | @worked sys n _ hwork hw hran =>
    have hnext := work_next hwork
    have hpc : s.srv.pc ≠ .ended := fun hpc => by simp [hpc, PC.next] at hnext
    have hclear : s.srv.pc ≠ .clearClients := fun hpc => hne (by simpa [hpc, PC.next] using hnext)
    have hserved := hran.served hs.owns hs.cache hclear
    have hb := hs.booked hpc
    have hrow := fun p => (hserved p).booked hb hclear
    refine ⟨hpc, ⟨fun p hp => ?_, fun p => (hrow p).1, fun ht p hnot => ?_⟩, fun hall => ?_⟩
    · have hsize : t.heap.size = s.heap.size := hw.size
      rw [hsize] at hp
      rw [(hserved p).fresh (Heap.get?_of_size_le hp)]
      exact hb.fresh p hp
    · refine (hrow p).2.1 fun hpc' => hnot ?_
      rw [hpc'] at hnext
      simpa [PC.next, ht] using hnext
    · constructor
      · exact fun hD hpc' p hp => ((hrow p).2.2 (hall p)).mp (hD p) hpc' hp
      · exact fun hkeeps p => ((hrow p).2.2 (hall p)).mpr fun hpc' hp => hkeeps hpc' p hp

theorem MsgOwned.step {a : ServerAct} (hs : s.MsgOwned) (hnew : a.AddsNew)
    (hstep : (server h kind).step s a (.ok t)) : t.MsgOwned :=
  ⟨hs.toCacheOwned.step hstep, fun hne => (hs.stepped hnew hstep hne).2.1⟩

/-! ## No message is lost -/

/-- The bytes read of the client `p`. -/
def recvBytes (s : ServerState) (p : Ptr) : List UInt8 :=
  NetEvent.recvBytes (s.events.filter fun e => e.pClient = p)

/-- The messages of the client `p` handed to `OnNetMsg`. -/
def dispatched (s : ServerState) (p : Ptr) : List (List UInt8) :=
  NetEvent.dispatched (s.events.filter fun e => e.pClient = p)

/-- Until the thread ends, what was dispatched of a deleted client is the complete messages
that were read of it, each once and in order. -/
def MsgsDispatched (s : ServerState) : Prop :=
  s.srv.pc ≠ .ended → ∀ p, s.Deleted p →
    ∃ t, netmsgFraming.Splits (s.recvBytes p) (s.dispatched p) t

theorem Booked.msgsDispatched_iff (hs : s.Booked) :
    (∀ p, s.Deleted p → ∃ t, netmsgFraming.Splits (s.recvBytes p) (s.dispatched p) t) ↔
      ∀ p, Delivered (s.table p) := by
  refine forall_congr' fun p => ⟨fun hall hnone => ?_, fun hD hdel => hD hdel.2⟩
  rcases Nat.lt_or_ge p s.heap.size with hp | hp
  · exact hall ⟨hp, hnone⟩
  · rw [hs.fresh p hp]
    exact ⟨[], .done netmsgFraming_not_complete_nil⟩

theorem MsgOwned.msgsDispatched_iff {a : ServerAct} (hs : s.MsgOwned) (hq : s.MsgsDispatched)
    (hnew : a.AddsNew) (hstep : (server h kind).step s a (.ok t)) :
    t.MsgsDispatched ↔ s.KeepsMsgs a := by
  by_cases hne : t.srv.pc = .ended
  · refine iff_of_true (fun hne' => absurd hne hne') ?_
    cases hs.toOwned.stepped hstep with
    | added => trivial
    | closed => trivial
    | worked hwork =>
      intro hpc
      have hnext := work_next hwork
      simp [hpc, hne, PC.next] at hnext
  · obtain ⟨hpc, hb, hiff⟩ := hs.stepped hnew hstep hne
    have hall := ((hs.booked hpc).msgsDispatched_iff).mp (hq hpc)
    rw [MsgsDispatched, forall_prop_of_true hne, hb.msgsDispatched_iff]
    exact hiff hall

end ServerState

/-- When no received message is thrown away. In every run of a server, whose clients are
new when they are added, a client that was deleted before the thread ended had each of its
complete messages dispatched once and in order, in every state of the run, exactly when in
no round the `send` of a client fails behind the `recv` that completed a message of it. -/
theorem messages_dispatched_iff (h : Handler) (kind : ServerKind) {s₀ s : ServerState}
    {tr : List (ServerState × ServerAct)} (hinit : (server h kind).init s₀)
    (hrun : (server h kind).Run s₀ tr s) (hnew : ∀ x ∈ tr, x.2.AddsNew) :
    ((∀ x ∈ tr, x.1.MsgsDispatched) ∧ s.MsgsDispatched) ↔ ∀ x ∈ tr, x.1.KeepsMsgs x.2 := by
  refine hrun.forall_iff_of_steps (N := fun _ a => a.AddsNew)
    (fun _ _ _ hs hN hst => ServerState.MsgOwned.step hs hN hst)
    (fun _ _ _ hs hq hN hst => hs.msgsDispatched_iff hq hN hst) hnew (.init hinit)
    fun _ p hdel => ?_
  simp [ServerState.Deleted, hinit.1] at hdel

/-- The client sends two heartbeats. The first is answered, and in the round that reads the
second the socket does not take the answer. -/
theorem lost_heart : ∃ s₀ tr s, (server (.answer netmsgS2cHeartBytes) .select).init s₀ ∧
    (server (.answer netmsgS2cHeartBytes) .select).Run s₀ tr s ∧ (∀ x ∈ tr, x.2.AddsNew) ∧
    (∀ x ∈ tr, ∀ c, x.2 = .addClient c → c.recvBuff.nSize = 64) ∧ s.heap.size = 1 ∧
    s.recvBytes 0 = [4, 0, 15, 0, 4, 0, 15, 0] ∧ ¬s.MsgsDispatched := by
  let sys : SysCalls := ⟨0, fun _ => true, .ready [3] [3], .events [],
    fun _ => .avail [4, 0, 15, 0], fun _ => .fail⟩
  let acts : List ServerAct := .addClient (.new 3 64 64 (fun _ => 0) fun _ => 0) ::
    List.replicate 11 (.work sys)
  let h : Handler := .answer netmsgS2cHeartBytes
  let next? := Machine.next? ServerState.Kernel (ServerState.act h) 2
  have heval : (acts.foldlM next? .newSelect).map (fun s =>
      ((s.srv.pc, s.heap.size, (s.heap.get? 0).isNone), s.recvBytes 0, s.dispatched 0)) =
        some ((.doMsg, 1, true), [4, 0, 15, 0, 4, 0, 15, 0], [[4, 0, 15, 0]]) := by
    decide +kernel
  obtain ⟨tr, s, hrun, hacts, hstate⟩ := Machine.Run.of_next?_map (server h .select).init heval
  simp only [Prod.mk.injEq] at hstate
  obtain ⟨⟨hpc, hsize, hget⟩, hrecv, hdisp⟩ := hstate
  have hact : ∀ x ∈ tr, x.2 = .addClient (.new 3 64 64 (fun _ => 0) fun _ => 0) ∨
      x.2 = .work sys := by
    intro x hx
    have hmem : x.2 ∈ acts := hacts ▸ List.mem_map_of_mem hx
    exact (List.mem_cons.mp hmem).imp_right List.eq_of_mem_replicate
  refine ⟨_, tr, s, ServerState.newSelect_init h, hrun, fun x hx => ?_, fun x hx c hc => ?_,
    hsize, hrecv, fun hall => ?_⟩
  · rcases hact x hx with heq | heq
    · rw [heq]
      exact ⟨3, 64, 64, _, _, by decide, by decide, rfl⟩
    · rw [heq]
      trivial
  · rcases hact x hx with heq | heq <;> rw [heq] at hc <;> simp at hc
    rw [← hc]
    rfl
  · -- the second heartbeat is left over, and it is complete
    have hdel : s.Deleted 0 := ⟨hsize ▸ Nat.one_pos, Option.isNone_iff_eq_none.mp hget⟩
    obtain ⟨t, ht⟩ := hall (by simp [hpc]) 0 hdel
    rw [hrecv, hdisp] at ht
    obtain rfl : t = [4, 0, 15, 0] := List.append_cancel_left ht.flatten
    exact ht.not_complete (netmsgFraming_complete.mpr (by decide))

/-- A received message is thrown away, though all messages are well formed and fit the
receive buffer. -/
theorem not_messages_dispatched : ¬∀ (h : Handler) (kind : ServerKind) (nSize : ℤ)
    (s₀ s : ServerState) (tr : List (ServerState × ServerAct)), (server h kind).init s₀ →
      (server h kind).Run s₀ tr s → (∀ x ∈ tr, x.2.AddsNew) →
      (∀ x ∈ tr, ∀ c, x.2 = .addClient c → c.recvBuff.nSize = nSize) →
      (∀ p < s.heap.size, ∃ msgs : List (List UInt8),
        (∀ m ∈ msgs, IsMsg m ∧ (m.length : ℤ) ≤ nSize) ∧ s.recvBytes p <+: msgs.flatten) →
      s.MsgsDispatched := by
  intro hall
  obtain ⟨s₀, tr, s, hinit, hrun, hnew, hfit, hsize, hrecv, hlost⟩ := lost_heart
  refine hlost (hall _ _ 64 s₀ s tr hinit hrun hnew hfit fun p hp => ?_)
  obtain rfl : p = 0 := Nat.lt_one_iff.mp (hsize ▸ hp)
  refine ⟨[[4, 0, 15, 0], [4, 0, 15, 0]], fun m hm => ?_, hrecv ▸ List.prefix_refl _⟩
  obtain rfl : m = [4, 0, 15, 0] := by simpa using hm
  exact ⟨by unfold IsMsg; decide, by decide⟩

/-- Some round of that run loses a message. -/
theorem messages_dispatched_iff_lost : ∃ s₀ tr s,
    (server (.answer netmsgS2cHeartBytes) .select).init s₀ ∧
    (server (.answer netmsgS2cHeartBytes) .select).Run s₀ tr s ∧
    ¬∀ x ∈ tr, x.1.KeepsMsgs x.2 := by
  obtain ⟨s₀, tr, s, hinit, hrun, hnew, -, -, -, hlost⟩ := lost_heart
  refine ⟨s₀, tr, s, hinit, hrun, fun hkeeps => hlost ?_⟩
  exact ((messages_dispatched_iff _ _ hinit hrun hnew).mpr hkeeps).2

end CellNet
