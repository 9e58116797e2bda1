import CellNet.Worker

/-!
# Signs of life

A message may show that its client is alive : the handler calls `resetDTHeart`. A
`HeartHandler` says for which messages it does. `drain_run` follows one client through the
loop of `DoMsg`, `doMsgFrom_dtHeart` says what `DoMsg` leaves of the timers.
`MyServer.heartHandler` is the handler of the server program, which resets the timer for a
login, a logout and a heartbeat.
-/

namespace CellNet

/-! ## Messages that reset the timer -/

/-- A message handler that calls `resetDTHeart` for some messages. Nothing else changes
`_dtHeart`. -/
structure HeartHandler extends Handler where
  resets : CELLClient → List UInt8 → Bool
  dtHeart_eq : ∀ c m, (onNetMsg c m).dtHeart = if resets c m then 0 else c.dtHeart

namespace HeartHandler

variable {h : HeartHandler} {n : ℕ} {p : Ptr} {c c' : CELLClient} {s t : ServerState} {b : Bool}

/-- The loop of `DoMsg` for one client, with whether a message has reset its timer. -/
def drain (h : HeartHandler) : Loop (CELLClient × Bool) UB :=
  drainLoop (fun x => .ok x.1)
    (fun x header => .ok (h.onNetMsg x.1 header, x.2 || h.resets x.1 header))
    fun x => (·, x.2) <$> x.1.popFrontMsg

/-- One test of the loop in the server is one in the client. -/
theorem drain_body (hc : s.heap.get? p = some c) {o : Option ServerState}
    (hb : (ServerState.drain h.toHandler p).body s = .ok o) (b : Bool) :
    (o = none ∧ h.drain.body (c, b) = .ok none) ∨ ∃ s' c', o = some s' ∧
      s'.heap.get? p = some c' ∧
      h.drain.body (c, b) = .ok (some (c', b || h.resets c c.frontMsg)) ∧
      c'.dtHeart = (h.onNetMsg c c.frontMsg).dtHeart := by
  simp only [ServerState.drain, drainLoop, Heap.deref_eq hc, Fallible.ok_bind] at hb
  obtain ⟨m, hm, hb⟩ := Fallible.bind_eq_ok.mp hb
  simp only [drain, drainLoop, Fallible.ok_bind, hm]
  cases m with
  | false =>
    obtain rfl := Except.ok.inj hb
    exact .inl ⟨rfl, rfl⟩
  | true =>
    simp only [if_true] at hb ⊢
    obtain ⟨s₁, hmsg, hb⟩ := Fallible.bind_eq_ok.mp hb
    obtain ⟨s₂, hpop, hb⟩ := Fallible.bind_eq_ok.mp hb
    obtain rfl := Except.ok.inj hb
    have hu := ServerState.onNetMsg_sat (E := fun _ => True) hc h.toHandler c.frontMsg
    rw [hmsg] at hu
    have hu' := ServerState.popFrontMsg_sat (E := fun _ => True) trivial hu.get?
    rw [hpop] at hu'
    obtain ⟨c', hpop', hu'⟩ := hu'
    refine .inr ⟨s₂, c', rfl, hu'.get?, by rw [hpop']; rfl, ?_⟩
    obtain ⟨d, -, hd⟩ := Fallible.bind_eq_ok.mp hpop'
    split at hd
    · obtain ⟨k, -, hd⟩ := Fallible.bind_eq_ok.mp hd
      obtain ⟨x, -, hd⟩ := Fallible.bind_eq_ok.mp hd
      exact Except.ok.inj hd ▸ rfl
    · exact Except.ok.inj hd ▸ rfl

/-- A loop in the server is one in the client. What it leaves of the timer is `x`. -/
theorem drain_run (hc : s.heap.get? p = some c)
    (hrun : (ServerState.drain h.toHandler p).run n s = some (.ok t)) {x : ℤ}
    (hx : c.dtHeart = if b then 0 else x) : ∃ c' b',
      h.drain.run n (c, b) = some (.ok (c', b')) ∧ t.heap.get? p = some c' ∧
      c'.dtHeart = if b' then 0 else x := by
  induction n generalizing s c b with
  | zero => simp [Loop.run] at hrun
  | succ n ih =>
    cases hb : (ServerState.drain h.toHandler p).body s with
    | error u => simp [Loop.run, hb] at hrun
    | ok o =>
      rcases drain_body hc hb b with ⟨rfl, hbody⟩ | ⟨s', c', rfl, hc', hbody, hdt⟩
      · simp only [Loop.run, hb, Option.some.injEq, Except.ok.injEq] at hrun
        subst hrun
        exact ⟨c, b, by simp [Loop.run, hbody], hc, hx⟩
      · simp only [Loop.run, hb] at hrun
        simp only [Loop.run, hbody]
        refine ih hc' hrun ?_
        rw [hdt, h.dtHeart_eq, hx]
        cases b <;> cases h.resets c c.frontMsg <;> rfl

end HeartHandler

namespace ServerState

variable {s t : ServerState} {h : HeartHandler} {n : ℕ} {p : Ptr} {c c' : CELLClient}
  {sys : SysCalls}

/-- In `DoMsg` a message resets the timer of the client. -/
def resetIn (h : HeartHandler) (n : ℕ) (s : ServerState) (p : Ptr) : Bool :=
  match s.heap.get? p with
  | none => false
  | some c =>
    match h.drain.run n (c, false) with
    | some (.ok x) => x.2
    | _ => false

theorem doMsgFrom_dtHeart : ∀ (es : List (SOCKET × Ptr)) {s : ServerState}, s.Owns [] →
    (∀ e ∈ es, e ∈ s.srv.clients.entries) → (es.map Prod.snd).Nodup →
    doMsgFrom h.toHandler n es s = some (.ok t) → ∀ p ∈ es.map Prod.snd,
      ∃ c c', s.heap.get? p = some c ∧ t.heap.get? p = some c' ∧
        c'.dtHeart = if s.resetIn h n p then 0 else c.dtHeart
  | [], s, _, _, _, _, p, hp => by simp at hp
  | e :: es, s, hs, hmem, hnodup, hr, p, hp => by
    rw [doMsgFrom] at hr
    obtain ⟨hnotin, hnodup'⟩ := List.nodup_cons.mp hnodup
    have he : (e.1, e.2) ∈ s.srv.clients.entries := hmem e List.mem_cons_self
    split at hr
    swap
    · rename_i r hne
      exact absurd hr (hne t)
    rename_i u hrun
    have hv := drain_visited (E := fun _ => True) trivial h.toHandler hs he ⟨n, hrun⟩
    obtain ⟨hv, hsrv⟩ := hv
    have hmem' : ∀ e ∈ es, e ∈ u.srv.clients.entries := by
      rw [hsrv]
      exact fun e he => hmem e (List.mem_cons_of_mem _ he)
    have hrest := doMsgFrom_toured (E := fun _ => True) trivial h.toHandler n es hv.kept.owns
      hmem' hnodup' hr
    rcases List.mem_cons.mp hp with rfl | hp
    · obtain ⟨c, hc⟩ := hs.get? (CELLServer.mem_held_of_entry he)
      obtain ⟨c', b, hclient, hc', hdt⟩ := HeartHandler.drain_run (b := false) (x := c.dtHeart)
        hc hrun rfl
      have hframe := congrArg Prod.fst (hrest.1.swept.frame _ hnotin)
      exact ⟨c, c', hc, hframe.trans hc', by simpa [resetIn, hc, hclient] using hdt⟩
    · have hne : p ≠ e.2 := fun heq => hnotin (heq ▸ hp)
      have hframe : u.heap.get? p = s.heap.get? p := congrArg Prod.fst (hv.frame p hne)
      obtain ⟨c, c', hc, hc', hdt⟩ := doMsgFrom_dtHeart es hv.kept.owns hmem' hnodup' hr p hp
      rw [resetIn, hframe] at hdt
      exact ⟨c, c', hframe.symm.trans hc, hc', hdt⟩

end ServerState

/-! ## The server program -/

namespace MyServer

variable {c c' : CELLClient}

/-- A message that shows a client to be alive. -/
def resets (header : List UInt8) : Bool :=
  match cmd header with
  | .error _ => false
  | .ok n =>
    match CMD.ofCode n with
    | some .login => true
    | some .logout => true
    | some .c2sHeart => true
    | _ => false

/-- A client with other message counters and another send buffer, and the timer `dt`. -/
def Answered (c : CELLClient) (dt : ℤ) (c' : CELLClient) : Prop :=
  ∃ i j b, c' = { c with nRecvMsgID := i, nSendMsgID := j, sendBuff := b, dtHeart := dt }

/-- If `x` returns, then it leaves a client answered. -/
abbrev Answers (c : CELLClient) (dt : ℤ) (x : Exec (MyServer × CELLClient)) : Prop :=
  Exec.Sat (fun _ => True) x fun y => Answered c dt y.2

theorem sendData_sat (c : CELLClient) (pData : List UInt8) (len : ℤ) :
    Exec.Sat (fun _ => True) (c.sendData pData len) fun y => ∃ b, y.2 = { c with sendBuff := b } :=
  (Exec.Sat.any _).eq_ok.mono fun _ h => CELLClient.sendData_of_ok h

theorem sendDataHeader_sat (c : CELLClient) (header : List UInt8) :
    Exec.Sat (fun _ => True) (c.sendDataHeader header) fun y =>
      ∃ b, y.2 = { c with sendBuff := b } :=
  (Exec.Sat.any _).bind fun _ _ => sendData_sat c header _

theorem sendBack_sat (s : MyServer) (c : CELLClient) (mem : ℕ → UInt8) :
    Exec.Sat (fun _ => True) (s.sendBack c mem) fun y =>
      ∃ j b, y.2 = { c with nSendMsgID := j, sendBuff := b } := by
  unfold sendBack
  split
  · dsimp only
    generalize NetmsgLoginR.bytes _ = m
    refine (sendDataHeader_sat c m).bind fun y ⟨b, hb⟩ => ?_
    split
    · exact ⟨c.nSendMsgID, b, hb⟩
    · exact ⟨_, b, by rw [hb]⟩
  · exact ⟨c.nSendMsgID, c.sendBuff, rfl⟩

theorem onLogin_answers (s : MyServer) (c : CELLClient) (header : List UInt8)
    (mem : ℕ → UInt8) : Answers c 0 (s.onLogin c header mem) := by
  have hcheck : Exec.Sat (fun _ => True) (s.checkMsgID c.resetDTHeart header) fun y =>
      ∃ i, y.2 = { c with nRecvMsgID := i, dtHeart := 0 } := by
    unfold checkMsgID
    split
    · exact (Exec.Sat.any _).bind fun id _ => ⟨_, rfl⟩
    · exact ⟨_, rfl⟩
  refine hcheck.bind fun x ⟨i, hi⟩ => ?_
  refine (sendBack_sat x.1 x.2 mem).mono fun y ⟨j, b, hy⟩ => ⟨i, j, b, ?_⟩
  rw [hy, hi]

theorem onLogout_answers (s : MyServer) (c : CELLClient) (header : List UInt8)
    (mem : ℕ → UInt8) : Answers c 0 (s.onLogout c header mem) := by
  unfold onLogout
  -- a term for the new stream, which would be evaluated
  generalize CELLStream.newWrite 128 mem = w
  refine Exec.Sat.bind_any fun r => ?_
  iterate 8 refine Exec.Sat.bind_any fun ⟨_, r⟩ => ?_
  iterate 3 refine Exec.Sat.bind_any fun ⟨_, _, r⟩ => ?_
  iterate 2 refine Exec.Sat.bind_any fun w => ?_
  iterate 8 refine Exec.Sat.bind_any fun ⟨_, w⟩ => ?_
  refine Exec.Sat.bind_any fun w => ?_
  refine (sendData_sat _ _ _).bind fun y hy => ?_
  obtain ⟨b, hb⟩ := hy
  exact ⟨c.nRecvMsgID, c.nSendMsgID, b, hb⟩

theorem onUndefine_answers (s : MyServer) (c : CELLClient) (header : List UInt8) :
    Answers c c.dtHeart (s.onUndefine c header) :=
  Exec.Sat.bind_any fun _ => ⟨c.nRecvMsgID, c.nSendMsgID, c.sendBuff, rfl⟩

theorem onHeart_answers (s : MyServer) (c : CELLClient) (header : List UInt8) :
    Answers c 0 (s.onHeart c header) := by
  refine (sendDataHeader_sat c.resetDTHeart _).bind fun x ⟨b, hb⟩ => ?_
  refine (onUndefine_answers s x.2 header).mono fun y ⟨i, j, b', hy⟩ => ⟨i, j, b', ?_⟩
  rw [hy, hb]
  rfl

/-- `OnNetMsg` resets the timer for a message that shows the client to be alive. Else it
touches the message counters and the send buffer. -/
theorem onNetMsg_answers (s : MyServer) (c : CELLClient) (header : List UInt8)
    (mem : ℕ → UInt8) :
    Answers c (if resets header then 0 else c.dtHeart) (s.onNetMsg c header mem) := by
  unfold onNetMsg
  refine (Exec.Sat.any (cmd header)).eq_ok.bind fun n hn => ?_
  simp only [resets, hn]
  cases CMD.ofCode n with
  | none => exact onUndefine_answers _ c header
  | some k =>
    cases k with
    | login => exact onLogin_answers _ c header mem
    | logout => exact onLogout_answers _ c header mem
    | c2sHeart => exact onHeart_answers _ c header
    | loginResult => exact onUndefine_answers _ c header
    | logoutResult => exact onUndefine_answers _ c header
    | newUserJoin => exact onUndefine_answers _ c header
    | s2cHeart => exact onUndefine_answers _ c header
    | error => exact onUndefine_answers _ c header

theorem Answered.of_ok {s : MyServer} {header : List UInt8} {mem : ℕ → UInt8}
    {x : MyServer × CELLClient} (h : s.onNetMsg c header mem = .ok x) :
    Answered c (if resets header then 0 else c.dtHeart) x.2 := by
  have hanswers := onNetMsg_answers s c header mem
  rwa [h] at hanswers

/-- The handler of a `MyServer`. A message it is not defined for is ignored. -/
def heartHandler (s : MyServer) (mem : ℕ → UInt8) : HeartHandler where
  onNetMsg c m :=
    match s.onNetMsg c m mem with
    | .ok x => x.2
    | .error _ => c
  recvBuff_eq c m := by
    split
    · obtain ⟨i, j, b, heq⟩ := Answered.of_ok ‹s.onNetMsg c m mem = _›
      rw [heq]
    · rfl
  sockfd_eq c m := by
    split
    · obtain ⟨i, j, b, heq⟩ := Answered.of_ok ‹s.onNetMsg c m mem = _›
      rw [heq]
    · rfl
  resets c m :=
    match s.onNetMsg c m mem with
    | .ok _ => resets m
    | .error _ => false
  dtHeart_eq c m := by
    split
    · obtain ⟨i, j, b, heq⟩ := Answered.of_ok ‹s.onNetMsg c m mem = _›
      rw [heq]
    · rfl

end MyServer

end CellNet
