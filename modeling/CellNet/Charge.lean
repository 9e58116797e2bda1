import CellNet.Clock
import CellNet.Heartbeat
import CellNet.SelectCache
import CellNet.SignsOfLife

/-!
# What CheckTime charges a client

`CheckTime` adds the time since the last clock reading to the timer of every client in the
map, also to that of one that was moved into the map, or whose timer was reset, after that
reading. `ClockedServer` is a server with a clock : it notes for every client the moment
`since` when it was moved or last reset, and the reading `base` the server had then. What a
client is charged is the time since `base` (`HeartOwned`), so `early_death_iff` : a client is
removed early exactly if some `CheckTime` falls between the two.
-/

namespace CellNet

namespace ServerState

variable {s t : ServerState} {sys : SysCalls}

/-- Only the hand-over and `ClearClients` empty the buffer. -/
theorem handOver_clientsBuff (h : s.handOver sys = .ok t) : t.srv.clientsBuff = [] := by
  unfold handOver at h
  split at h
  · rename_i hempty
    exact Except.ok.inj h ▸ List.isEmpty_iff.mp hempty
  · obtain ⟨u, -, hu⟩ := Fallible.bind_eq_ok.mp h
    exact Except.ok.inj hu ▸ rfl

theorem clearClients_clientsBuff (h : s.clearClients = .ok t) : t.srv.clientsBuff = [] := by
  obtain ⟨u, -, h⟩ := Fallible.bind_eq_ok.mp h
  obtain ⟨v, -, hv⟩ := Fallible.bind_eq_ok.mp h
  exact Except.ok.inj hv ▸ rfl

end ServerState

/-! ## A server with a clock -/

/-- A server with the clock. -/
structure ClockedServer where
  state : ServerState
  clock : ℤ
  /-- When the client was moved into the map, or its timer last reset. -/
  since : Ptr → ℤ
  /-- The clock reading of the server at that moment. -/
  base : Ptr → ℤ

/-- What happens to the server while the clock goes on to `stop`. A client that is moved into
the map, or whose timer is last reset in it, is so at its `moment`. -/
structure ClockedAct where
  act : ServerAct
  stop : ℤ
  moment : Ptr → ℤ

/-- The action adds a client with a timer at zero, as its constructor leaves it. -/
def ServerAct.AddsAtZero : ServerAct → Prop
  | .addClient c => c.dtHeart = 0
  | _ => True

instance : (a : ServerAct) → Decidable a.AddsAtZero
  | .addClient c => inferInstanceAs (Decidable (c.dtHeart = 0))
  | .close => inferInstanceAs (Decidable True)
  | .work _ => inferInstanceAs (Decidable True)

namespace ClockedServer

variable (h : HeartHandler) (n : ℕ)

/-- The action moves the client into the map, or resets its timer. -/
def renews (s : ServerState) (a : ServerAct) (p : Ptr) : Bool :=
  match a, s.srv.pc with
  | .work _, .handOver => decide (p ∈ s.srv.clientsBuff)
  | .work _, .doMsg => decide (p ∈ s.srv.clients.values) && s.resetIn h n p
  | _, _ => false

/-- After the action `a`, which leaves the server `t`. -/
def next (s : ClockedServer) (a : ClockedAct) (t : ServerState) : ClockedServer where
  state := t
  clock := a.stop
  since p := if renews h n s.state a.act p then a.moment p else s.since p
  base p := if renews h n s.state a.act p then s.state.srv.oldTime else s.base p

/-- One action, in which a loop ends after at most `n` tests. -/
def act (s : ClockedServer) (a : ClockedAct) : Option (Exec ClockedServer) :=
  (ServerState.act h.toHandler n s.state a.act).map (s.next h n a <$> ·)

/-- The kernel keeps its promises, new clients are new, and the clock does not go back. -/
def Kernel (s : ClockedServer) (a : ClockedAct) : Prop :=
  s.state.Kernel a.act ∧ a.act.AddsAtZero ∧ s.clock ≤ a.stop ∧
    (∀ p < s.state.heap.size, s.clock ≤ a.moment p ∧ a.moment p ≤ a.stop) ∧
    ∀ now ∈ a.act.now?, s.clock ≤ now ∧ now ≤ a.stop

instance (s : ClockedServer) (a : ClockedAct) : Decidable (s.Kernel a) :=
  inferInstanceAs (Decidable (_ ∧ _ ∧ _ ∧ _ ∧ _))

end ClockedServer

/-- A server of the subclass `kind` with the handler `h`, and the clock. -/
def clockedServer (h : HeartHandler) (kind : ServerKind) :
    Machine ClockedServer ClockedAct UB :=
  .ofFn (fun s => (server h.toHandler kind).init s.state ∧ s.state.srv.oldTime ≤ s.clock)
    ClockedServer.Kernel (ClockedServer.act h)

/-! ## What a client was charged -/

/-- `DoNetEvents` leaves the timers alone. -/
theorem netEffect_dtHeart {s : ServerState} {sys : SysCalls} {p : Ptr} {c c' : CELLClient}
    {es : List NetEvent} (hR : s.netEffect sys p c (some c') es) : c'.dtHeart = c.dtHeart := by
  obtain ⟨o, es₁, hread, hvisit⟩ := hR
  obtain ⟨d, es₂, hd, hwrite⟩ := hvisit.exists_of_some rfl
  obtain rfl : o = some d := hd
  obtain ⟨b, rfl⟩ := hread.recvBuff_only
  cases hwrite with
  | idle => rfl
  | sent _ hsend =>
    obtain ⟨b, rfl⟩ := CELLClient.sendDataReal_of_ok hsend
    rfl

namespace ServerState

variable {s t : ServerState} {h : HeartHandler} {n : ℕ} {sys : SysCalls} {p : Ptr}
  {c' : CELLClient}

theorem Shrunk.mem_values (hshrunk : s.Shrunk t) (hp : p ∈ t.srv.clients.values) :
    p ∈ s.srv.clients.values := by
  obtain ⟨e, he, rfl⟩ := List.mem_map.mp hp
  exact List.mem_map_of_mem (hshrunk.sub e he)

/-- A client there was is in the map or in the buffer. -/
theorem Owns.mem_of_get? (ho : s.Owns []) {c : CELLClient} (hc : s.heap.get? p = some c) :
    p ∈ s.srv.clients.values ∨ p ∈ s.srv.clientsBuff := by
  have hheld := (ho.live p).mp ⟨c, hc⟩
  rwa [List.append_nil, CELLServer.held, List.mem_append] at hheld

/-- `DoNetEvents` leaves the timer of a client it leaves. -/
theorem Rounded.dtHeart (hround : s.Rounded sys t []) (ho : s.Owns [])
    (hcache : ∀ d, s.srv.derived = .select d → s.CacheReal d) (hp : p ∈ t.srv.clients.values)
    (hc' : t.heap.get? p = some c') : p ∈ s.srv.clients.values ∧
      ∃ c, s.heap.get? p = some c ∧ c'.dtHeart = c.dtHeart := by
  obtain ⟨u, hu, htable, hclients, -, htour⟩ := hround.toured ho hcache
  have hp' : p ∈ s.srv.clients.values := hclients ▸ htour.shrunk.mem_values hp
  obtain ⟨c, es, hc, hR⟩ := (htour.swept.visit p hp').exists_of_some hc'
  rw [htable] at hc
  exact ⟨hp', c, hc, netEffect_dtHeart hR⟩

/-- `DoNetEvents` does not touch the clients in the buffer. -/
theorem Rounded.clientsBuff (hround : s.Rounded sys t []) (ho : s.Owns [])
    (hcache : ∀ d, s.srv.derived = .select d → s.CacheReal d) :
    t.srv.clientsBuff = s.srv.clientsBuff ∧
      ∀ p ∈ s.srv.clientsBuff, t.heap.get? p = s.heap.get? p := by
  obtain ⟨u, hu, htable, hclients, hbuff, htour⟩ := hround.toured ho hcache
  refine ⟨htour.shrunk.clientsBuff.trans hbuff, fun p hp => ?_⟩
  have hframe := htour.swept.frame p fun hv => ho.not_mem_clientsBuff hv hp
  exact congrArg Prod.fst (hframe.trans (congrFun htable p))

/-- `DoMsg` leaves the timer of a client, or resets it. -/
theorem work_doMsg_dtHeart (ho : s.Owns []) (hpc : s.srv.pc = .doMsg)
    (hwork : s.work h.toHandler n sys = some (.ok t)) (hp : p ∈ s.srv.clients.values)
    (hc' : t.heap.get? p = some c') : ∃ c, s.heap.get? p = some c ∧
      c'.dtHeart = if s.resetIn h n p then 0 else c.dtHeart := by
  simp only [work, hpc] at hwork
  obtain ⟨x, hx, hmap⟩ := Option.map_eq_some_iff.mp hwork
  obtain ⟨u, rfl, rfl⟩ := Exec.map_eq_ok.mp hmap
  obtain ⟨c, d, hc, hd, hdt⟩ :=
    doMsgFrom_dtHeart _ ho (fun _ he => he) ho.nodup_values hx p hp
  obtain rfl : c' = d := Option.some.inj (hc'.symm.trans hd)
  exact ⟨c, hc, hdt⟩

/-- What a section leaves of the timer of a client in the map : it is zero if the section
moved or reset the client, and else it went on by what `_oldTime` did. -/
theorem work_dtHeart (hs : s.CacheOwned) (hr : s.Reports sys)
    (hwait : ∀ p ∈ s.srv.clientsBuff, ∀ c, s.heap.get? p = some c → c.dtHeart = 0)
    (hwork : s.work h.toHandler n sys = some (.ok t)) (hp : p ∈ t.srv.clients.values)
    (hc' : t.heap.get? p = some c') :
    if ClockedServer.renews h n s (.work sys) p then
      c'.dtHeart = 0 ∧ t.srv.oldTime = s.srv.oldTime
    else p ∈ s.srv.clients.values ∧ ∃ c, s.heap.get? p = some c ∧
      c'.dtHeart = c.dtHeart + (t.srv.oldTime - s.srv.oldTime) := by
  have hran : s.Ran sys [] t := work_ran (E := fun _ => True) trivial trivial h.toHandler hs.owns
    hs.distinct hr hwork
  have hne : t.srv.clients.entries ≠ [] := by
    intro hnil
    simp [SortedMap.values, hnil] at hp
  have htime := work_oldTime hs.owns hwork
  simp only [hne, or_false] at htime
  -- a section that leaves the timer and the reading
  have hsame : s.srv.pc ≠ .checkTime → p ∈ s.srv.clients.values →
      (∃ c, s.heap.get? p = some c ∧ c'.dtHeart = c.dtHeart) → p ∈ s.srv.clients.values ∧
        ∃ c, s.heap.get? p = some c ∧
          c'.dtHeart = c.dtHeart + (t.srv.oldTime - s.srv.oldTime) := by
    rintro hpc hp ⟨c, hc, hdt⟩
    obtain ⟨hold, -⟩ := htime.resolve_right fun hnow => hpc hnow.2
    exact ⟨hp, c, hc, by omega⟩
  cases hran with
  | loop hpc => simpa [ClockedServer.renews, hpc] using hsame (by simp [hpc]) hp ⟨c', hc', rfl⟩
  | busy hpc => simpa [ClockedServer.renews, hpc] using hsame (by simp [hpc]) hp ⟨c', hc', rfl⟩
  | skip hpc hempty => exact absurd hempty hne
  | @handOver hpc u hover =>
    have hold := (htime.resolve_right fun hnow => by simp [hpc] at hnow).1
    by_cases hbuff : p ∈ s.srv.clientsBuff
    · simp only [ClockedServer.renews, hpc, hbuff, decide_true, if_true]
      obtain ⟨c, es, hc, hR, -⟩ := (hover.swept.visit p hbuff).exists_of_some hc'
      obtain rfl := Option.some.inj hR
      exact ⟨hwait p hbuff c hc, hold⟩
    · simp only [ClockedServer.renews, hpc, hbuff, decide_false, Bool.false_eq_true, if_false]
      have hc : s.heap.get? p = some c' :=
        (congrArg Prod.fst (hover.swept.frame p hbuff)).symm.trans hc'
      exact hsame (by simp [hpc]) ((hs.owns.mem_of_get? hc).resolve_right hbuff) ⟨c', hc, rfl⟩
  | @checkTime hpc u htour =>
    simp only [ClockedServer.renews, hpc, Bool.false_eq_true, if_false]
    have hnow := (htime.resolve_left fun hold => hold.2 hpc).1
    have hp' := htour.shrunk.mem_values hp
    obtain ⟨c, es, hc, hR⟩ := (htour.swept.visit p hp').exists_of_some hc'
    refine ⟨hp', c, hc, ?_⟩
    rw [hnow]
    cases hR with
    | alive => rfl
  | @round hpc u hround =>
    simp only [ClockedServer.renews, hpc, Bool.false_eq_true, if_false]
    obtain ⟨hp', hdt⟩ := hround.dtHeart hs.owns (hs.cache (by simp [hpc])) hp hc'
    exact hsame (by simp [hpc]) hp' hdt
  | @stop hpc u hround =>
    simp only [ClockedServer.renews, hpc, Bool.false_eq_true, if_false]
    obtain ⟨hp', hdt⟩ := hround.dtHeart hs.owns (hs.cache (by simp [hpc])) hp hc'
    exact hsame (by simp [hpc]) hp' hdt
  | @doMsg hpc u htour hsrv =>
    have hold := (htime.resolve_right fun hnow => by simp [hpc] at hnow).1
    have hp' : p ∈ s.srv.clients.values := hsrv ▸ hp
    obtain ⟨c, hc, hdt⟩ := work_doMsg_dtHeart hs.owns hpc hwork hp' hc'
    simp only [ClockedServer.renews, hpc, hp', decide_true, Bool.true_and]
    split
    · rename_i hreset
      rw [if_pos hreset] at hdt
      exact ⟨hdt, hold⟩
    · rename_i hreset
      rw [if_neg hreset] at hdt
      exact ⟨trivial, (hsame (by simp [hpc]) hp' ⟨c, hc, hdt⟩).2⟩
  | @clearClients hpc u hcleared =>
    have hnil : u.srv.clients.entries = [] := by
      rw [hcleared.clients]
      rfl
    exact absurd hnil hne

/-- The clients in the buffer wait there as they are, unless the section empties it. -/
theorem work_clientsBuff {h : Handler} (hs : s.CacheOwned) (hr : s.Reports sys)
    (hwork : s.work h n sys = some (.ok t)) : t.srv.clientsBuff = [] ∨
      (t.srv.clientsBuff = s.srv.clientsBuff ∧
        ∀ p ∈ s.srv.clientsBuff, t.heap.get? p = s.heap.get? p) := by
  have hran : s.Ran sys [] t := work_ran (E := fun _ => True) trivial trivial h hs.owns
    hs.distinct hr hwork
  have hdisj : ∀ p ∈ s.srv.clientsBuff, p ∉ s.srv.clients.values :=
    fun p hb hv => hs.owns.not_mem_clientsBuff hv hb
  cases hran with
  | loop => exact .inr ⟨rfl, fun _ _ => rfl⟩
  | busy => exact .inr ⟨rfl, fun _ _ => rfl⟩
  | skip => exact .inr ⟨rfl, fun _ _ => rfl⟩
  | @handOver hpc u =>
    simp only [work, hpc, Option.some.injEq] at hwork
    obtain ⟨v, hv, hvu⟩ := Exec.map_eq_ok.mp hwork
    have hnil := handOver_clientsBuff hv
    exact .inl (hvu ▸ hnil)
  | @checkTime hpc u htour =>
    exact .inr ⟨htour.shrunk.clientsBuff,
      fun p hp => congrArg Prod.fst (htour.swept.frame p (hdisj p hp))⟩
  | @round hpc u hround => exact .inr (hround.clientsBuff hs.owns (hs.cache (by simp [hpc])))
  | @stop hpc u hround => exact .inr (hround.clientsBuff hs.owns (hs.cache (by simp [hpc])))
  | @doMsg hpc u htour hsrv =>
    have hbuff : u.srv.clientsBuff = s.srv.clientsBuff := by rw [hsrv]
    refine .inr ⟨hbuff, fun p hp => ?_⟩
    exact congrArg Prod.fst (htour.swept.frame p (hdisj p hp))
  | @clearClients hpc u =>
    simp only [work, hpc, Option.some.injEq] at hwork
    obtain ⟨v, hv, hvu⟩ := Fallible.bind_eq_ok.mp hwork
    have hnil := clearClients_clientsBuff hv
    exact .inl (Except.ok.inj hvu ▸ hnil)

end ServerState

namespace ClockedServer

variable {h : HeartHandler} {kind : ServerKind} {s t : ClockedServer} {a : ClockedAct}

/-- A client in the map was charged the time from its base to the last clock reading, and one
in the buffer nothing. -/
structure HeartOwned (s : ClockedServer) : Prop where
  owned : s.state.CacheOwned
  charged : ∀ p ∈ s.state.srv.clients.values, ∀ c, s.state.heap.get? p = some c →
    c.dtHeart = s.state.srv.oldTime - s.base p
  waiting : ∀ p ∈ s.state.srv.clientsBuff, ∀ c, s.state.heap.get? p = some c → c.dtHeart = 0

theorem HeartOwned.init (hinit : (clockedServer h kind).init s) : s.HeartOwned := by
  refine ⟨.init hinit.1, ?_, ?_⟩
  all_goals
    obtain ⟨⟨-, -, i, oldTime, derived, -, hsrv⟩, -⟩ := hinit
    simp [hsrv, CELLServer.new]

/-- The action of a step, with the server it leaves. -/
theorem exists_next (hstep : (clockedServer h kind).step s a (.ok t)) : ∃ n u,
    s.Kernel a ∧ ServerState.act h.toHandler n s.state a.act = some (.ok u) ∧
      t = s.next h n a u := by
  obtain ⟨hk, n, hact⟩ := hstep
  obtain ⟨x, hx, hmap⟩ := Option.map_eq_some_iff.mp hact
  obtain ⟨u, rfl, rfl⟩ := Exec.map_eq_ok.mp hmap
  exact ⟨n, u, hk, hx, rfl⟩

theorem HeartOwned.step (hs : s.HeartOwned) (hstep : (clockedServer h kind).step s a (.ok t)) :
    t.HeartOwned := by
  obtain ⟨n, u, ⟨hk, hzero, -⟩, hact, rfl⟩ := exists_next hstep
  have hserver : (server h.toHandler kind).step s.state a.act (.ok u) := ⟨hk, n, hact⟩
  have hu := hs.owned.step hserver
  have ho := hs.owned.owns
  cases ha : a.act with
  | addClient c =>
    rw [ha] at hact hzero
    obtain rfl := Except.ok.inj (Option.some.inj hact)
    have hget : ∀ p, (s.state.addClient c).heap.get? p =
        if p = s.state.heap.size then some c else s.state.heap.get? p := fun p => Heap.get?_new
    refine ⟨hu, fun p hp c' hc' => ?_, fun p hp c' hc' => ?_⟩
    · obtain ⟨d, hd⟩ := ho.get? (List.mem_append_left _ hp)
      have hold := hget p
      rw [if_neg (Nat.ne_of_lt (Heap.lt_size hd))] at hold
      have hbase : (s.next h n a (s.state.addClient c)).base p = s.base p := by
        simp [next, renews, ha]
      rw [hbase]
      exact hs.charged p hp c' (hold.symm.trans hc')
    · change (s.state.addClient c).heap.get? p = some c' at hc'
      rw [hget] at hc'
      split at hc'
      · exact Option.some.inj hc' ▸ hzero
      · rename_i hne
        have hmem : p ∈ s.state.srv.clientsBuff ++ [s.state.heap.size] := hp
        exact hs.waiting p ((List.mem_append.mp hmem).resolve_right (by simpa using hne)) c' hc'
  | close =>
    rw [ha] at hact
    obtain rfl := Except.ok.inj (Option.some.inj hact)
    refine ⟨hu, fun p hp c' hc' => ?_, hs.waiting⟩
    have hbase : (s.next h n a s.state.close).base p = s.base p := by simp [next, renews, ha]
    rw [hbase]
    exact hs.charged p hp c' hc'
  | work sys =>
    rw [ha] at hact hk
    refine ⟨hu, fun p hp c' hc' => ?_, fun p hp c' hc' => ?_⟩
    · have hdt := ServerState.work_dtHeart hs.owned hk hs.waiting hact hp hc'
      simp only [next, ha]
      split at hdt
      · rename_i hrenews
        rw [if_pos hrenews]
        omega
      · rename_i hrenews
        rw [if_neg hrenews]
        obtain ⟨hp', c, hc, hdt⟩ := hdt
        have hold := hs.charged p hp' c hc
        omega
    · rcases ServerState.work_clientsBuff hs.owned hk hact with hnil | ⟨hbuff, hget⟩
      · change p ∈ u.srv.clientsBuff at hp
        simp [hnil] at hp
      · have hp' : p ∈ s.state.srv.clientsBuff := hbuff ▸ hp
        exact hs.waiting p hp' c' ((hget p hp').symm.trans hc')

/-! ## When CheckTime is early -/

/-- `P p now` holds of every client `p` in the map where the action is `CheckTime` with the
clock reading `now`. -/
def AtCheckTime (s : ClockedServer) (a : ClockedAct) (P : Ptr → ℤ → Prop) : Prop :=
  ∀ sys, a.act = .work sys → s.state.srv.pc = .checkTime →
    ∀ p ∈ s.state.srv.clients.values, P p sys.now

/-- The client `p` is not in the map any more after `CheckTime` at `now`. -/
def Removes (s : ClockedServer) (p : Ptr) (now : ℤ) : Prop :=
  ∃ t, s.state.checkTime now = .ok t ∧ p ∉ t.srv.clients.values

/-- A client that `CheckTime` removes was in the map, with no reset, for the time of death. -/
def NoneEarly (s : ClockedServer) (a : ClockedAct) : Prop :=
  s.AtCheckTime a fun p now => s.Removes p now → CLIENT_HREAT_DEAD_TIME ≤ now - s.since p

/-- The timer of a client, as `checkHeart` leaves it, is at most the time the client was in
the map without a reset. -/
def NoneOvercharged (s : ClockedServer) (a : ClockedAct) : Prop :=
  s.AtCheckTime a fun p now => ∀ c, s.state.heap.get? p = some c →
    (c.checkHeart (now - s.state.srv.oldTime)).2.dtHeart ≤ now - s.since p

/-- The clock reading is not the time of death behind the base of a client while it is less
behind its move or reset. -/
def Spares (s : ClockedServer) (a : ClockedAct) : Prop :=
  s.AtCheckTime a fun p now => CLIENT_HREAT_DEAD_TIME ≤ now - s.base p →
    CLIENT_HREAT_DEAD_TIME ≤ now - s.since p

/-- The clients were moved or reset at a clock reading of the server. -/
def Punctual (s : ClockedServer) (a : ClockedAct) : Prop :=
  s.AtCheckTime a fun p _ => s.since p ≤ s.base p

theorem AtCheckTime.congr {P Q : Ptr → ℤ → Prop}
    (hPQ : ∀ p ∈ s.state.srv.clients.values, ∀ now, P p now ↔ Q p now) :
    s.AtCheckTime a P ↔ s.AtCheckTime a Q :=
  forall_congr' fun sys => imp_congr_right fun _ => imp_congr_right fun _ =>
    forall_congr' fun p => imp_congr_right fun hp => hPQ p hp sys.now

/-- A client is removed when the time since its base is the time of death. -/
theorem HeartOwned.removes_iff (hs : s.HeartOwned) {p : Ptr}
    (hp : p ∈ s.state.srv.clients.values) (now : ℤ) :
    s.Removes p now ↔ CLIENT_HREAT_DEAD_TIME ≤ now - s.base p := by
  obtain ⟨e, he, rfl⟩ := List.mem_map.mp hp
  obtain ⟨t, ht, hmem, -⟩ := (ServerState.checkTime_sat hs.owned.owns now).exists_ok
  obtain ⟨c, hc⟩ := hs.owned.owns.get? (List.mem_append_left _ hp)
  have hdt := hs.charged e.2 hp c hc
  have hleft : e.2 ∈ t.srv.clients.values ↔ s.state.Survives now e := by
    constructor
    · intro hp'
      obtain ⟨e', he', heq⟩ := List.mem_map.mp hp'
      obtain ⟨d, hd, halive⟩ := ((hmem e').mp he').2
      exact ⟨d, heq ▸ hd, halive⟩
    · exact fun hsurvives => List.mem_map_of_mem ((hmem e).mpr ⟨he, hsurvives⟩)
  have hsurvives : s.state.Survives now e ↔ now - s.base e.2 < CLIENT_HREAT_DEAD_TIME := by
    constructor
    · rintro ⟨d, hd, halive⟩
      obtain rfl := Option.some.inj (hc.symm.trans hd)
      omega
    · exact fun halive => ⟨c, hc, by omega⟩
  rw [← not_lt, ← hsurvives, ← hleft]
  constructor
  · rintro ⟨t', ht', hnot⟩
    obtain rfl := Except.ok.inj (ht.symm.trans ht')
    exact hnot
  · exact fun hnot => ⟨t, ht, hnot⟩

theorem HeartOwned.noneEarly_iff (hs : s.HeartOwned) : s.NoneEarly a ↔ s.Spares a :=
  AtCheckTime.congr fun _ hp now => imp_congr_left (hs.removes_iff hp now)

theorem HeartOwned.noneOvercharged_iff (hs : s.HeartOwned) :
    s.NoneOvercharged a ↔ s.Punctual a := by
  refine AtCheckTime.congr fun p hp now => ?_
  obtain ⟨c, hc⟩ := hs.owned.owns.get? (List.mem_append_left _ hp)
  have hdt := hs.charged p hp c hc
  simp only [hc, Option.some.injEq, forall_eq', CELLClient.checkHeart]
  omega

end ClockedServer

/-- When `CheckTime` removes a client early. In every run of a server, with any clock
readings that do not go back and any durations of the sections, the clients that `CheckTime`
removes were in the map with no reset for the time of death, exactly when no reading of
`CheckTime` is that time behind the base of a client, the last reading before it was moved
or reset, and less than that behind the move or reset. And no client is charged for the time
before, exactly when all were moved or reset at a reading. -/
theorem early_death_iff (h : HeartHandler) (kind : ServerKind) {s₀ s : ClockedServer}
    {tr : List (ClockedServer × ClockedAct)} (hinit : (clockedServer h kind).init s₀)
    (hrun : (clockedServer h kind).Run s₀ tr s) :
    ((∀ x ∈ tr, x.1.NoneEarly x.2) ↔ ∀ x ∈ tr, x.1.Spares x.2) ∧
    ((∀ x ∈ tr, x.1.NoneOvercharged x.2) ↔ ∀ x ∈ tr, x.1.Punctual x.2) := by
  have hall : ∀ x ∈ tr, x.1.HeartOwned := by
    intro x hx
    obtain ⟨pre, post, hpre, -⟩ := hrun.of_mem hx
    exact hpre.invariant (fun _ _ _ hs hst => ClockedServer.HeartOwned.step hs hst) (.init hinit)
  constructor
  · exact forall₂_congr fun x hx => (hall x hx).noneEarly_iff
  · exact forall₂_congr fun x hx => (hall x hx).noneOvercharged_iff

/-- The handler of a `MyServer` with no option set. -/
def HeartHandler.plain : HeartHandler :=
  MyServer.heartHandler ⟨.zero, false, false, false, []⟩ fun _ => 0

/-- A select server that just started, at time zero. -/
def ClockedServer.newSelect : ClockedServer :=
  ⟨.newSelect, 0, fun _ => 0, fun _ => 0⟩

theorem ClockedServer.newSelect_init (h : HeartHandler) :
    (clockedServer h .select).init newSelect :=
  ⟨ServerState.newSelect_init h.toHandler, le_refl _⟩

/-- A `DoMsg` takes 60 seconds. A client that joins right after it is removed by the next
`CheckTime`, at the moment it joined. -/
theorem slow_section : ∃ s₀ tr s, (clockedServer .plain .select).init s₀ ∧
    (clockedServer .plain .select).Run s₀ tr s ∧ ∃ x ∈ tr, ¬x.1.NoneEarly x.2 := by
  let sys : ℤ → SysCalls := fun now => ⟨now, fun _ => true, .ready [] [], .events [],
    fun _ => .fail, fun _ => .accept 0⟩
  let at' : ℤ → ServerAct → ClockedAct := fun k a => ⟨a, k, fun _ => k⟩
  let client : SOCKET → CELLClient := fun fd => .new fd 64 64 (fun _ => 0) fun _ => 0
  let acts : List ClockedAct := at' 0 (.addClient (client 3)) ::
    List.replicate 5 (at' 0 (.work (sys 0))) ++ at' 0 (.addClient (client 4)) ::
    List.replicate 4 (at' 60000 (.work (sys 60000)))
  let check : ClockedAct := at' 60000 (.work (sys 60000))
  let next? := Machine.next? ClockedServer.Kernel (ClockedServer.act .plain) 1
  have heval : (acts.foldlM next? .newSelect).map (fun s =>
      (s.state.srv.pc, s.state.srv.clients.values, s.since 1,
        (s.state.checkTime 60000).toOption.map fun t => t.srv.clients.values,
        (next? s check).isSome)) = some (.checkTime, [0, 1], 60000, some [], true) := by
    decide +kernel
  have hinit := ClockedServer.newSelect_init .plain
  obtain ⟨tr, s, hrun, -, hstate⟩ :=
    Machine.Run.of_next?_map (clockedServer .plain .select).init heval
  simp only [Prod.mk.injEq] at hstate
  obtain ⟨hpc, hvalues, hsince, hremoved, hnext⟩ := hstate
  obtain ⟨t, ht⟩ := Option.isSome_iff_exists.mp hnext
  obtain ⟨u, hu, hnil⟩ := Option.map_eq_some_iff.mp hremoved
  have hcheck := hrun.snoc (Machine.step_of_next? (clockedServer .plain .select).init ht)
  refine ⟨_, _, t, hinit, hcheck, (s, check), by simp, fun hall => ?_⟩
  have hmem : (1 : Ptr) ∈ s.state.srv.clients.values := by simp [hvalues]
  have hlate := hall _ rfl hpc 1 hmem
    ⟨u, Exec.toOption_eq_some.mp hu, hnil ▸ List.not_mem_nil⟩
  rw [hsince] at hlate
  exact absurd hlate (by decide)

/-- A client is removed as soon as it joins. -/
theorem not_early_death : ¬∀ (h : HeartHandler) (kind : ServerKind) (s₀ s : ClockedServer)
    (tr : List (ClockedServer × ClockedAct)), (clockedServer h kind).init s₀ →
      (clockedServer h kind).Run s₀ tr s →
      ∀ x ∈ tr, x.1.NoneEarly x.2 ∧ x.1.NoneOvercharged x.2 := by
  intro hall
  obtain ⟨s₀, tr, s, hinit, hrun, x, hx, hearly⟩ := slow_section
  exact hearly (hall _ _ s₀ s tr hinit hrun x hx).1

/-- Some clock reading of that run does not spare it. -/
theorem early_death_iff_slow : ∃ s₀ tr s, (clockedServer .plain .select).init s₀ ∧
    (clockedServer .plain .select).Run s₀ tr s ∧ ¬∀ x ∈ tr, x.1.Spares x.2 := by
  obtain ⟨s₀, tr, s, hinit, hrun, x, hx, hearly⟩ := slow_section
  refine ⟨s₀, tr, s, hinit, hrun, fun hall => hearly ?_⟩
  exact (early_death_iff .plain .select hinit hrun).1.mpr hall x hx

end CellNet
