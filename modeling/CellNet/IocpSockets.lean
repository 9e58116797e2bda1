import CellNet.Iocp
import Mathlib.Data.Fintype.Card

/-!
# The sockets of the server on a completion port

A block that was posted has an operation, or its socket was closed, or the call that should
have posted its next operation failed, after which nobody looks at it again : `Kept` leaves out
the last, and `sockets_kept_iff` says when it holds. In each case the block is never given to
another client, so the server takes `nClient` clients in its life and no more.
-/

namespace CellNet

namespace Iocp

namespace Server

variable {s t : Server} {a : Act}

/-! ## How long a block is in use -/

theorem post_peers (s : Server) (n : Slot) (type : IO_TYPE) (len : ℕ) (posts : Bool) :
    (s.post n type len posts).peers = s.peers := by
  cases posts <;> rfl

theorem mem_live_post {n m : Slot} {type : IO_TYPE} {len : ℕ} {posts : Bool}
    (hm : m ∈ (s.post n type len posts).live) : m = n ∨ m ∈ s.live := by
  cases posts with
  | false => exact Or.inr hm
  | true =>
    rw [live, post, if_pos rfl, List.map_append] at hm
    rcases List.mem_append.mp hm with hm | hm
    · rcases List.mem_append.mp hm with hm | hm
      · exact Or.inr (List.mem_append_left _ hm)
      · exact Or.inl (List.mem_singleton.mp hm)
    · exact Or.inr (List.mem_append_right _ hm)

/-- The call by which the program posts an operation in this step, if there is one, succeeds. -/
def PostsAll (s : Server) : Act → Prop
  | .post _ ok => ∀ n, s.pc = .posting n → n < nClient → ok = true
  | .dequeue j assoc ok => ∀ c ∈ s.completions[j]?, s.posts c assoc = true → ok = true
  | _ => True

/-- Up to the end every block that was posted has an operation, or its socket is closed. -/
def Kept (s : Server) : Prop :=
  s.pc ≠ .ended → ∀ n, s.Posted n → n ∈ s.live ++ s.closed

/-- Where the operation of a block without one is posted, the block is kept exactly if the call
succeeds. -/
theorem mem_live_post_iff {n m : Slot} {type : IO_TYPE} {len : ℕ} {ok : Bool} :
    m ∈ (s.post n type len ok).live ++ (s.post n type len ok).closed ↔
      ok = true ∧ m = n ∨ m ∈ s.live ++ s.closed := by
  cases ok with
  | false =>
    rw [or_iff_right fun h => Bool.false_ne_true h.1]
    rfl
  | true =>
    rw [live, post, if_pos rfl, List.map_append]
    simp only [setIoData, List.map_singleton, live, List.mem_append, List.mem_singleton, true_and]
    tauto

/-- The operation of the one block that was posted and is not kept is posted. -/
theorem kept_post_iff {n : Slot} {type : IO_TYPE} {len : ℕ} {ok : Bool}
    (hn : n ∉ s.live ++ s.closed) (hposted : s.Posted n) (hpc : s.pc ≠ .ended)
    (hall : ∀ m, s.Posted m → m = n ∨ m ∈ s.live ++ s.closed) :
    (s.post n type len ok).Kept ↔ ok = true := by
  have hpost : (s.post n type len ok).pc = s.pc := by cases ok <;> rfl
  constructor
  · intro hkept
    have hmem := hkept (hpost.symm ▸ hpc) n fun m hm => hposted m (hpost.symm.trans hm)
    rw [mem_live_post_iff] at hmem
    exact (hmem.resolve_right hn).1
  · intro hok _ m hm
    rw [mem_live_post_iff]
    rcases hall m fun k hk => hm k (hpost.trans hk) with rfl | hmem
    · exact Or.inl ⟨hok, rfl⟩
    · exact Or.inr hmem

/-- A pass for an entry of a block that is in no use. -/
theorem kept_handled_iff {c : Completion} (hn : c.slot ∉ s.live ++ s.closed)
    (hall : ∀ n, n = c.slot ∨ n ∈ s.live ++ s.closed) (hpc : s.pc = .loop) {peer : Peer}
    (hentry : EntryOk (s.ioData c.slot) peer c.result) {assoc ok : Bool}
    (h : s.Handled c assoc ok t) : t.Kept ↔ (s.posts c assoc = true → ok = true) := by
  have hne := ne_ended_of_loop hpc
  have hposted := posted_of_loop hpc c.slot
  cases h with
  | left h =>
    rcases h with h | h
    · exact absurd h hentry.error
    · exact absurd h hentry.type
  | closesocket h =>
    refine iff_of_true (fun _ n _ => ?_) fun hposts => absurd (hposts.symm.trans h) nofun
    rw [Server.closesocket, ← List.append_assoc]
    rcases hall n with rfl | hmem
    · exact List.mem_append_right _ (List.mem_singleton_self _)
    · exact List.mem_append_left _ hmem
  | exit h =>
    exact iff_of_true (fun hpc => absurd rfl hpc) fun hposts => absurd (hposts.symm.trans h) nofun
  | postRecv h =>
    rw [h]
    exact (kept_post_iff hn hposted hne fun m _ => hall m).trans (by simp)
  | @postSend k h =>
    rw [h]
    exact (kept_post_iff (s := s.setIoData c.slot fun io => { io with length := k }) hn hposted hne
      fun m _ => hall m).trans (by simp)

/-- A step keeps the blocks, unless a call that posts fails in it. -/
theorem Kept.step_iff (hs : s.Sound) (hk : s.Kept) (h : s.act a = some t) :
    t.Kept ↔ s.PostsAll a := by
  cases stepped h with
  | @posted n sockfd ok hpc hlt =>
    have hne := ne_ended_of_posting hpc
    obtain ⟨-, hposted⟩ := hs.used hne
    have hpost : { s.postAccept ⟨n, hlt⟩ sockfd ok with pc := .posting (n + 1) } =
        (Server.setIoData { s with pc := .posting (n + 1) } ⟨n, hlt⟩
          fun io => { io with sockfd }).post ⟨n, hlt⟩ .ACCEPT 0 ok := by
      cases ok <;> rfl
    rw [hpost]
    refine (kept_post_iff (fun hmem => ?_) (fun m hm => ?_) PC.noConfusion fun m hm => ?_).trans ?_
    · exact absurd (hposted _ hmem n hpc) (Nat.lt_irrefl n)
    · obtain rfl := PC.posting.inj hm
      exact Nat.lt_succ_self n
    · rcases Nat.lt_succ_iff_lt_or_eq.mp (hm (n + 1) rfl) with hlt' | heq
      · refine Or.inr (hk hne m fun k hk' => ?_)
        obtain rfl := PC.posting.inj (hpc.symm.trans hk')
        exact hlt'
      · exact Or.inl (Fin.ext heq)
    · exact ⟨fun hok _ _ _ => hok, fun hall => hall n hpc hlt⟩
  | @started n sockfd ok hpc hlt =>
    have hne := ne_ended_of_posting hpc
    refine iff_of_true (fun _ m _ => hk hne m fun k hk' => ?_) fun m hm hlt' => ?_
    · obtain rfl := PC.posting.inj (hpc.symm.trans hk')
      exact m.isLt.trans_le (Nat.not_lt.mp hlt)
    · obtain rfl := PC.posting.inj (hpc.symm.trans hm)
      exact absurd hlt' hlt
  | @completed _ i op io peer r hi hcompleted =>
    have hlive := live_complete hi io peer r
    have hkept : ((s.set op.slot io peer).complete i op.slot r).Kept := fun hpc n hn =>
      (hlive.append_right s.closed).mem_iff.mpr (hk hpc n hn)
    cases hcompleted <;> exact iff_of_true hkept trivial
  | send => exact iff_of_true hk trivial
  | shutdown => exact iff_of_true hk trivial
  | timeout => exact iff_of_true hk trivial
  | fail => exact iff_of_true (fun hpc => absurd rfl hpc) trivial
  | @dequeue j c assoc ok _ hpc hj hhandled =>
    have hne := ne_ended_of_loop hpc
    have hperm := (live_dequeue hj).append_right s.closed
    have hall : ∀ n, n = c.slot ∨
        n ∈ Server.live { s with completions := s.completions.eraseIdx j } ++ s.closed := by
      intro n
      exact List.mem_cons.mp (hperm.mem_iff.mpr (hk hne n (posted_of_loop hpc n)))
    refine (kept_handled_iff (hs.dequeue hpc hj).2 hall hpc
      (hs.each.completions c (List.mem_of_getElem? hj)) hhandled).trans ?_
    constructor
    · intro hok c' hc'
      obtain rfl := Option.some.inj (hj.symm.trans hc')
      exact hok
    · exact fun hok => hok c hj

/-- The block `n` was posted and is in no use, and its client is `peer`, apart from what it sends
and from whether it has shut down. -/
structure Unused (s : Server) (n : Slot) (peer : Peer) : Prop where
  posted : s.Posted n
  live : n ∉ s.live
  client : (s.peers n).connected = peer.connected ∧ (s.peers n).echoed = peer.echoed

/-- A pass for an entry of another block. -/
theorem Unused.handled {n : Slot} {peer : Peer} (hu : s.Unused n peer) {c : Completion}
    (hn : n ≠ c.slot) {assoc ok : Bool} (h : s.Handled c assoc ok t) : t.Unused n peer := by
  cases h with
  | left => exact hu
  | closesocket => exact ⟨hu.posted, hu.live, hu.client⟩
  | exit => exact ⟨fun _ h => PC.noConfusion h, List.not_mem_nil, hu.client⟩
  | postRecv =>
    have hpc : (s.postRecv c.slot ok).pc = s.pc := by cases ok <;> rfl
    refine ⟨fun m hm => hu.posted m (hpc.symm.trans hm),
      fun hm => (mem_live_post hm).elim hn hu.live, ?_⟩
    rw [postRecv, post_peers]
    exact hu.client
  | @postSend k =>
    have hpc : ((s.setIoData c.slot fun io => { io with length := k }).postSend c.slot ok).pc =
        s.pc := by
      cases ok <;> rfl
    refine ⟨fun m hm => hu.posted m (hpc.symm.trans hm),
      fun hm => (mem_live_post hm).elim hn hu.live, ?_⟩
    rw [postSend, post_peers]
    exact hu.client

/-- A client sends, or shuts down. -/
theorem Unused.setPeer {n n' : Slot} {peer : Peer} (hu : s.Unused n peer) {f : Peer → Peer}
    (hf : ∀ peer, (f peer).connected = peer.connected ∧ (f peer).echoed = peer.echoed) :
    (s.setPeer n' f).Unused n peer := by
  refine ⟨hu.posted, hu.live, ?_⟩
  by_cases hn : n = n'
  · subst hn
    simp only [Server.setPeer, Function.update_self, hf]
    exact hu.client
  · simp only [Server.setPeer, Function.update_of_ne hn]
    exact hu.client

/-- A block that is in no use stays so. -/
theorem Unused.step {n : Slot} {peer : Peer} (hu : s.Unused n peer) (h : s.act a = some t) :
    t.Unused n peer := by
  cases stepped h with
  | @posted m sockfd posts hpc hlt =>
    have hlt' := hu.posted m hpc
    have hne : n ≠ ⟨m, hlt⟩ := fun heq => absurd hlt' (by rw [heq]; exact Nat.lt_irrefl m)
    refine ⟨fun m' hm' => ?_, fun hm => (mem_live_post hm).elim hne hu.live, ?_⟩
    · obtain rfl := PC.posting.inj hm'
      exact Nat.lt_succ_of_lt hlt'
    · dsimp only
      rw [postAccept, post_peers]
      exact hu.client
  | started => exact ⟨fun _ h => PC.noConfusion h, hu.live, hu.client⟩
  | @completed _ i op io peer' r hi hcompleted =>
    have hne : n ≠ op.slot := fun heq => hu.live (heq ▸ slot_mem_live hi)
    have hlive := live_complete hi io peer' r
    refine ⟨hu.posted, fun hm => hu.live (hlive.mem_iff.mp hm), ?_⟩
    simp only [complete, set, Function.update_of_ne hne]
    exact hu.client
  | send => exact hu.setPeer fun _ => ⟨rfl, rfl⟩
  | shutdown => exact hu.setPeer fun _ => ⟨rfl, rfl⟩
  | timeout => exact hu
  | fail => exact ⟨fun _ h => PC.noConfusion h, List.not_mem_nil, hu.client⟩
  | @dequeue j c _ _ _ hpc hj hhandled =>
    have hperm := live_dequeue hj
    have hne : n ≠ c.slot := fun heq =>
      hu.live (hperm.mem_iff.mp (heq ▸ List.mem_cons_self))
    have hu' : Unused { s with completions := s.completions.eraseIdx j } n peer :=
      ⟨hu.posted, fun hm => hu.live (hperm.mem_iff.mp (List.mem_cons_of_mem _ hm)), hu.client⟩
    exact hu'.handled hne hhandled

/-- The blocks whose client has connected. -/
def clients (s : Server) : Finset Slot :=
  Finset.univ.filter fun n => (s.peers n).connected = true

theorem clients_congr (h : ∀ n, (t.peers n).connected = (s.peers n).connected) :
    t.clients = s.clients :=
  Finset.filter_congr fun n _ => by rw [h n]

theorem update_connected {n : Slot} {peer : Peer}
    (h : peer.connected = (s.peers n).connected) (m : Slot) :
    (Function.update s.peers n peer m).connected = (s.peers m).connected := by
  by_cases hm : m = n
  · subst hm
    rw [Function.update_self, h]
  · rw [Function.update_of_ne hm]

theorem Handled.peers {c : Completion} {assoc ok : Bool} (h : s.Handled c assoc ok t) :
    t.peers = s.peers := by
  cases h with
  | left => rfl
  | closesocket => rfl
  | exit => rfl
  | postRecv => rw [Server.postRecv, post_peers]
  | postSend =>
    rw [Server.postSend, post_peers]
    rfl

end Server

/-- A client connects. -/
def Act.connects : Act → Bool
  | .connect _ => true
  | _ => false

namespace Server

variable {s t : Server} {a : Act}

/-- A client only connects to a block that had none. -/
theorem Sound.card_clients (hs : s.Sound) (h : s.act a = some t) :
    t.clients.card = s.clients.card + a.connects.toNat := by
  have hsame : ∀ {b : Act}, b.connects = false →
      (∀ n, (t.peers n).connected = (s.peers n).connected) →
      t.clients.card = s.clients.card + b.connects.toNat := by
    intro b hb hall
    rw [clients_congr hall, hb]
    rfl
  cases stepped h with
  | @posted n sockfd posts hpc hlt =>
    refine hsame rfl fun m => ?_
    dsimp only
    rw [postAccept, post_peers]
    rfl
  | started => exact hsame rfl fun _ => rfl
  | @completed _ i op io peer r hi hcompleted =>
    cases hcompleted with
    | connect htype =>
      have hmem := List.mem_of_getElem? hi
      have hnew : (s.peers op.slot).connected = false :=
        (hs.each.pending op hmem).2.1 htype
      have hnotin : op.slot ∉ s.clients := fun hin => by
        rw [(Finset.mem_filter.mp hin).2] at hnew
        cases hnew
      rw [Act.connects, Bool.toNat_true, ← Finset.card_insert_of_notMem hnotin]
      congr 1
      ext m
      rw [clients, clients, Finset.mem_insert, Finset.mem_filter, Finset.mem_filter]
      by_cases hm : m = op.slot
      · subst hm
        rw [complete, set_peers]
        exact iff_of_true ⟨Finset.mem_univ _, rfl⟩ (Or.inl rfl)
      · simp only [complete, set, Function.update_of_ne hm, hm, false_or]
    | recv => exact hsame rfl (update_connected rfl)
    | sent => exact hsame rfl (update_connected rfl)
    | abort => exact hsame rfl (update_connected rfl)
  | send => exact hsame rfl (update_connected rfl)
  | shutdown => exact hsame rfl (update_connected rfl)
  | timeout => exact hsame rfl fun _ => rfl
  | fail => exact hsame rfl fun _ => rfl
  | dequeue hpc hj hhandled =>
    refine hsame rfl fun m => ?_
    rw [hhandled.peers]

end Server

section Results

variable {s₀ s : Server} {tr : List (Server × Act)}

/-- In every run, up to the end, the socket of every block that was posted is closed or has an
operation, exactly when every call that posts an operation succeeds : where one fails, only a line
is printed, and the socket stays open until the end. -/
theorem sockets_kept_iff (h₀ : iocp.init s₀) (h : iocp.Run s₀ tr s) :
    ((∀ x ∈ tr, x.1.Kept) ∧ s.Kept) ↔ ∀ x ∈ tr, x.1.PostsAll x.2 := by
  obtain rfl : s₀ = .new := h₀
  refine h.forall_iff (I := Server.Sound) (Q := Server.Kept)
    (fun _ _ _ hs hstep => hs.step (Machine.ofStep_step.mp hstep))
    (fun _ _ _ hs hk hstep => hk.step_iff hs (Machine.ofStep_step.mp hstep)) .new ?_
  exact fun _ n hn => absurd (hn 0 rfl) (Nat.not_lt_zero _)

/-- All the calls succeed, and each of the ten blocks has an operation or a closed socket. -/
theorem sockets_kept_iff_ten : ∃ tr s, iocp.Run .new tr s ∧ s.pc = .loop ∧
    ∀ n, n ∈ s.live ++ s.closed := by
  have hview : ((received ++ [Act.abort 9 ERROR_NETNAME_DELETED, .dequeue 0 true true]).foldlM
      Server.act .new).map Server.pc = some .loop := rfl
  obtain ⟨tr, s, hrun, hacts, hpc⟩ : ∃ tr s, iocp.Run .new tr s ∧ _ :=
    Machine.Run.of_act_map hview
  have hok : ∀ a ∈ tr.map Prod.snd, ∀ u : Server, u.PostsAll a := by
    intro a ha u
    rw [hacts, received, List.append_assoc] at ha
    rcases List.mem_append.mp ha with ha | ha
    · obtain rfl := List.eq_of_mem_replicate ha
      exact fun _ _ _ => rfl
    · simp only [List.cons_append, List.nil_append, List.mem_cons, List.not_mem_nil, or_false] at ha
      rcases ha with rfl | rfl | rfl | rfl | rfl | rfl | rfl
      all_goals first | exact trivial | exact fun _ _ _ => rfl
  have hkept := (sockets_kept_iff rfl hrun).mpr fun x hx => hok _ (List.mem_map_of_mem hx) x.1
  exact ⟨tr, s, hrun, hpc, fun n =>
    hkept.2 (Server.ne_ended_of_loop hpc) n (Server.posted_of_loop hpc n)⟩

/-- In every run at most `nClient` clients connect, no socket of a block is closed twice before the
end, and a block that is in no use, once it was posted, is never used again : its client gets
nothing more, and no other client gets it. -/
theorem blocks_used_once (h₀ : iocp.init s₀) (h : iocp.Run s₀ tr s) :
    (tr.countP fun x => x.2.connects) ≤ nClient ∧ (s.pc ≠ .ended → s.closed.Nodup) ∧
      ∀ n, s.Posted n → n ∉ s.live → ∀ tr' t, iocp.Run s tr' t →
        n ∉ t.live ∧ (t.peers n).connected = (s.peers n).connected ∧
          (t.peers n).echoed = (s.peers n).echoed := by
  have hs := sound_of_run h₀ h
  refine ⟨?_, fun hpc => (List.nodup_append.mp (hs.used hpc).1).2.1, ?_⟩
  · obtain rfl : s₀ = .new := h₀
    have hcount := h.response (W := Server.Sound) (D := fun _ => False)
      (m := fun s => nClient - s.clients.card) (p := fun x => x.2.connects)
      (fun _ _ _ hfalse => hfalse.elim) (fun u a v hu hstep => Or.inr ?_) .new
    · obtain ⟨-, hle⟩ := hcount.resolve_left id
      exact (Nat.le_add_left _ _).trans (hle.trans (Nat.sub_le _ _))
    · have hact := Machine.ofStep_step.mp hstep
      have hcard := hu.card_clients hact
      have hle : v.clients.card ≤ nClient := (Finset.card_le_univ _).trans_eq (Fintype.card_fin _)
      refine ⟨hu.step hact, ?_⟩
      dsimp only
      omega
  · intro n hposted hlive tr' t h'
    have hu := h'.invariant (I := fun t => t.Unused n (s.peers n))
      (fun _ _ _ hu hstep => hu.step (Machine.ofStep_step.mp hstep)) ⟨hposted, hlive, rfl, rfl⟩
    exact ⟨hu.live, hu.client⟩

/-- The client gets its bytes and shuts down, and the block is never used again. -/
theorem blocks_used_once_left : ∃ tr s, iocp.Run .new tr s ∧ s.closed = [0] ∧ s.pc = .loop ∧
    (tr.countP fun x => x.2.connects) ≤ nClient ∧ ∀ tr' t, iocp.Run s tr' t →
      0 ∉ t.live ∧ (t.peers 0).connected = true ∧ (t.peers 0).echoed = [104, 105] := by
  have hview : ((received ++ [Act.sent 9 2, .dequeue 0 true true, .shutdown 0, .recv 9 0,
      .dequeue 0 true true]).foldlM Server.act .new).map
      (fun s => (s.closed, s.pc, s.live, (s.peers 0).connected, (s.peers 0).echoed)) =
      some ([0], .loop, [1, 2, 3, 4, 5, 6, 7, 8, 9], true, [104, 105]) := rfl
  obtain ⟨tr, s, hrun, -, hview⟩ : ∃ tr s, iocp.Run .new tr s ∧ _ :=
    Machine.Run.of_act_map hview
  obtain ⟨hclosed, hpc, hlive, hconnected, hechoed⟩ : _ ∧ _ ∧ _ ∧ _ ∧ _ := by
    simpa only [Prod.mk.injEq] using hview
  obtain ⟨hcount, -, hunused⟩ := blocks_used_once rfl hrun
  refine ⟨tr, s, hrun, hclosed, hpc, hcount, fun tr' t h' => ?_⟩
  rw [← hconnected, ← hechoed]
  refine hunused 0 (Server.posted_of_loop hpc 0) ?_ tr' t h'
  rw [hlive]
  decide

end Results

end Iocp

end CellNet
