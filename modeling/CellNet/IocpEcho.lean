import CellNet.Iocp

/-!
# The echo of the server on a completion port

What a client sends is still to be received, in the buffer of its block, or sent back. A step
moves bytes from one of these places to the next, and `WSASend` may be completed with less than
it was given. The program takes any number above zero for all of them, so the rest of the bytes
is lost : `echo_iff` says that this is the only way.
-/

namespace CellNet

namespace Iocp

namespace Server

variable {s t : Server} {a : Act}

/-! ## What comes back to a client -/

/-- Of what a client has sent, only the bytes of an outstanding send are not yet sent back or
still to be received. -/
def OpEcho (io : IO_DATA_BASE) (peer : Peer) (op : Op) : Prop :=
  peer.sent = peer.echoed ++ (if op.type = .SEND then io.buffer.take op.len else []) ++
    peer.incoming

/-- Of what a client has sent, only the bytes of a completed receive are not yet sent back or
still to be received. Behind a send that moved nothing the socket is closed. -/
def EntryEcho (io : IO_DATA_BASE) (peer : Peer) (r : Except ℕ ℕ) : Prop :=
  ∀ k, r = .ok k → (io.iotype = some .SEND → k ≠ 0) →
    peer.sent = peer.echoed ++ (if io.iotype = some .RECV then io.buffer.take k else []) ++
      peer.incoming

/-- Every client gets back what it sent, in order, and while its block is in use nothing that
was received of it is lost. -/
structure Faithful (s : Server) : Prop where
  each : s.Each OpEcho EntryEcho
  order : ∀ n, ∃ held, (s.peers n).sent = (s.peers n).echoed ++ held ++ (s.peers n).incoming

/-- A send is completed with all its bytes, or with none. -/
def SendsAll (s : Server) : Act → Prop
  | .sent i k => ∀ op ∈ s.pending[i]?, k = op.len ∨ k = 0
  | _ => True

instance (s : Server) : ∀ a, Decidable (s.SendsAll a)
  | .sent i k => inferInstanceAs (Decidable (∀ op ∈ s.pending[i]?, k = op.len ∨ k = 0))
  | .post _ _ | .connect _ | .send _ _ | .shutdown _ | .recv _ _ | .abort _ _ | .timeout | .fail
  | .dequeue _ _ _ => .isTrue trivial

theorem Faithful.new : Faithful .new :=
  ⟨⟨fun _ h => absurd h List.not_mem_nil, fun _ h => absurd h List.not_mem_nil⟩,
    fun _ => ⟨[], rfl⟩⟩

theorem Faithful.isPrefix (hs : s.Faithful) (n : Slot) :
    (s.peers n).echoed <+: (s.peers n).sent := by
  obtain ⟨held, hsent⟩ := hs.order n
  rw [hsent, List.append_assoc]
  exact List.prefix_append _ _

/-- The operation of a block is completed. -/
theorem Faithful.complete (hf : s.Faithful) (hlive : s.live.Nodup) {i : ℕ} {op : Op}
    (hi : s.pending[i]? = some op) {io : IO_DATA_BASE} {peer : Peer} {r : Except ℕ ℕ}
    (hentry : EntryEcho io peer r)
    (horder : ∃ held, peer.sent = peer.echoed ++ held ++ peer.incoming) :
    ((s.set op.slot io peer).complete i op.slot r).Faithful := by
  refine ⟨hf.each.complete hlive hi hentry, fun n => ?_⟩
  by_cases hn : n = op.slot
  · subst hn
    rw [Server.complete, set_peers]
    exact horder
  · simp only [Server.complete, Server.set, Function.update_of_ne hn]
    exact hf.order n

/-- A block without an operation is replaced, and maybe an operation posted with it. -/
theorem Faithful.post (hf : s.Faithful) {n : Slot} (hn : n ∉ s.live) {io : IO_DATA_BASE}
    {type : IO_TYPE} {len : ℕ} (posts : Bool) (hop : OpEcho io (s.peers n) ⟨n, type, len⟩) :
    Faithful (if posts then
      { s.set n io (s.peers n) with pending := s.pending ++ [⟨n, type, len⟩] }
      else s.set n io (s.peers n)) := by
  have hpeers : (s.set n io (s.peers n)).peers = s.peers := Function.update_eq_self ..
  cases posts with
  | false =>
    refine ⟨hf.each.set hn io, ?_⟩
    rw [if_neg Bool.false_ne_true, hpeers]
    exact hf.order
  | true =>
    rw [if_pos rfl]
    exact ⟨hf.each.post hn hop, hpeers.symm ▸ hf.order⟩

/-- A client is changed, and what it sends more is still to be received. -/
theorem Faithful.setPeer (hf : s.Faithful) (n : Slot) {f : Peer → Peer} {bytes : List UInt8}
    (hsent : ∀ peer, (f peer).sent = peer.sent ++ bytes)
    (hincoming : ∀ peer, (f peer).incoming = peer.incoming ++ bytes)
    (hechoed : ∀ peer, (f peer).echoed = peer.echoed) : (s.setPeer n f).Faithful := by
  have hkeeps : ∀ (peer : Peer) held, peer.sent = peer.echoed ++ held ++ peer.incoming →
      (f peer).sent = (f peer).echoed ++ held ++ (f peer).incoming := by
    intro peer held h
    rw [hsent, hincoming, hechoed, h, List.append_assoc _ _ bytes]
  refine ⟨hf.each.setPeer (fun io op h => hkeeps _ _ h)
    (fun io r h k hk hne => hkeeps _ _ (h k hk hne)), fun n' => ?_⟩
  obtain ⟨held, hheld⟩ := hf.order n'
  by_cases hn : n' = n
  · subst hn
    simpa only [Server.setPeer, Function.update_self] using ⟨held, hkeeps _ _ hheld⟩
  · simpa only [Server.setPeer, Function.update_of_ne hn] using ⟨held, hheld⟩

/-- A completion keeps what is owed to the clients, unless it is that of a short send. -/
theorem Faithful.completed_iff (hs : s.Sound) (hf : s.Faithful) {i : ℕ} {op : Op}
    {io : IO_DATA_BASE} {peer : Peer} {r : Except ℕ ℕ} (hi : s.pending[i]? = some op)
    (h : s.Completed i op a io peer r) :
    ((s.set op.slot io peer).complete i op.slot r).Faithful ↔ s.SendsAll a := by
  have hmem := List.mem_of_getElem? hi
  obtain ⟨htype, -, hrecv, hsend⟩ := hs.each.pending op hmem
  have hop : OpEcho (s.ioData op.slot) (s.peers op.slot) op := hf.each.pending op hmem
  cases h with
  | connect ht =>
    rw [OpEcho, if_neg (by rw [ht]; exact IO_TYPE.noConfusion)] at hop
    refine iff_of_true (hf.complete hs.live hi (fun k hk _ => ?_) ⟨[], hop⟩) trivial
    rwa [htype, ht, if_neg (fun h => by cases h)]
  | @recv k ht hcan =>
    rw [OpEcho, if_neg (by rw [ht]; exact IO_TYPE.noConfusion), List.append_nil] at hop
    have hsent : (s.peers op.slot).sent = (s.peers op.slot).echoed ++
        (s.peers op.slot).incoming.take k ++ (s.peers op.slot).incoming.drop k := by
      rw [List.append_assoc, List.take_append_drop, hop]
    refine iff_of_true (hf.complete hs.live hi (fun k' hk _ => ?_) ⟨_, hsent⟩) trivial
    obtain rfl := Except.ok.inj hk
    have hle : k ≤ (s.peers op.slot).incoming.length := by
      rcases hcan with ⟨-, -, hle⟩ | ⟨rfl, -, -⟩
      · exact hle
      · exact Nat.zero_le _
    have htake : ((s.peers op.slot).incoming.take k ++
        (s.ioData op.slot).buffer.drop k).take k = (s.peers op.slot).incoming.take k :=
      List.take_left' (List.length_take_of_le hle)
    dsimp only
    rw [htype, ht, if_pos rfl, htake]
    exact hsent
  | @sent k ht hk =>
    rw [OpEcho, if_pos ht] at hop
    have hlen : op.len ≤ (s.ioData op.slot).buffer.length := by
      obtain ⟨hbuffer, hlength⟩ := hs.buffer op.slot
      rw [hbuffer, hsend ht]
      exact hlength
    have hnot : (s.ioData op.slot).iotype ≠ some .RECV := by
      rw [htype, ht]
      exact fun h => by cases h
    constructor
    · -- the entry says that nothing is owed, so the send was not short
      rintro hf' op' hi'
      obtain rfl := Option.some.inj (hi.symm.trans hi')
      by_cases hzero : k = 0
      · exact Or.inr hzero
      · have hentry := hf'.each.completions ⟨op.slot, .ok k⟩
          (List.mem_append_right _ (List.mem_singleton_self _)) k rfl
        rw [Server.complete, set_ioData, set_peers] at hentry
        have hsent := hentry fun _ => hzero
        rw [if_neg hnot, List.append_nil] at hsent
        have heq := hop.symm.trans hsent
        rw [List.append_left_inj, List.append_right_inj] at heq
        have hlength := congrArg List.length heq
        rw [List.length_take_of_le hlen, List.length_take_of_le (hk.trans hlen)] at hlength
        exact Or.inl hlength.symm
    · intro hall
      refine hf.complete hs.live hi (fun k' hk' hne => ?_)
        ⟨((s.ioData op.slot).buffer.take op.len).drop k, ?_⟩
      · obtain rfl := Except.ok.inj hk'
        rcases hall op hi with rfl | hzero
        · rw [if_neg hnot, List.append_nil]
          exact hop
        · exact absurd hzero (hne (by rw [htype, ht]))
      · have hsplit : (s.ioData op.slot).buffer.take k ++
            ((s.ioData op.slot).buffer.take op.len).drop k =
            (s.ioData op.slot).buffer.take op.len := by
          conv_rhs => rw [← List.take_append_drop k ((s.ioData op.slot).buffer.take op.len)]
          rw [List.take_take, Nat.min_eq_left hk]
        dsimp only
        rw [List.append_assoc (s.peers op.slot).echoed, hsplit, hop]
  | abort =>
    exact iff_of_true (hf.complete hs.live hi (fun k hk => by cases hk) (hf.order op.slot)) trivial

theorem Faithful.exit (hf : s.Faithful) : s.exit.Faithful :=
  ⟨⟨fun _ h => absurd h List.not_mem_nil, fun _ h => absurd h List.not_mem_nil⟩, hf.order⟩

/-- A pass for an entry of a block that is in no use. -/
theorem Faithful.handled (hf : s.Faithful) {c : Completion} (hn : c.slot ∉ s.live)
    (hentry : EntryEcho (s.ioData c.slot) (s.peers c.slot) c.result) {assoc ok : Bool}
    (h : s.Handled c assoc ok t) : t.Faithful := by
  cases h with
  | left => exact hf
  | closesocket => exact ⟨⟨hf.each.pending, hf.each.completions⟩, hf.order⟩
  | exit => exact hf.exit
  | @postRecv k _ hresult htype =>
    have hnot : (s.ioData c.slot).iotype ≠ some .RECV := by
      rcases htype with htype | ⟨htype, -⟩ <;> rw [htype] <;> exact fun h => by cases h
    have hsent := hentry k hresult fun hSEND => by
      rcases htype with htype | ⟨-, hne⟩
      · rw [htype] at hSEND
        cases hSEND
      · exact hne
    rw [if_neg hnot] at hsent
    rw [postRecv, post_eq]
    refine hf.post hn ok ?_
    rwa [OpEcho, if_neg fun h => by cases h]
  | @postSend k _ hresult htype =>
    have hsent := hentry k hresult fun hSEND => by
      rw [htype] at hSEND
      cases hSEND
    rw [if_pos htype] at hsent
    rw [postSend, post_eq, setIoData_eq, set_ioData, set_peers, set_set]
    refine hf.post hn ok ?_
    rwa [OpEcho, if_pos rfl]

/-- A step keeps what is owed to the clients, unless it completes a short send. -/
theorem Faithful.step_iff (hs : s.Sound) (hf : s.Faithful) (h : s.act a = some t) :
    t.Faithful ↔ s.SendsAll a := by
  cases stepped h with
  | @posted n sockfd posts hpc hlt =>
    have hne := ne_ended_of_posting hpc
    have hn : (⟨n, hlt⟩ : Slot) ∉ s.live := fun hmem =>
      absurd ((hs.used hne).2 _ (List.mem_append_left _ hmem) n hpc) (Nat.lt_irrefl n)
    have hfresh := hs.fresh ⟨n, hlt⟩ n hpc (Nat.le_refl n)
    refine iff_of_true ?_ trivial
    rw [postAccept, post_eq, setIoData_eq, set_ioData, set_peers, set_set]
    have hop : OpEcho { s.ioData ⟨n, hlt⟩ with sockfd, iotype := some .ACCEPT }
        (s.peers ⟨n, hlt⟩) ⟨⟨n, hlt⟩, .ACCEPT, 0⟩ := by
      rw [hfresh]
      rfl
    have hpost := hf.post hn posts hop
    cases posts <;> exact ⟨⟨hpost.each.pending, hpost.each.completions⟩, hpost.order⟩
  | started => exact iff_of_true ⟨⟨hf.each.pending, hf.each.completions⟩, hf.order⟩ trivial
  | completed hi hcompleted => exact hf.completed_iff hs hi hcompleted
  | send => exact iff_of_true (hf.setPeer _ (fun _ => rfl) (fun _ => rfl) fun _ => rfl) trivial
  | shutdown =>
    exact iff_of_true (hf.setPeer _ (fun _ => (List.append_nil _).symm)
      (fun _ => (List.append_nil _).symm) fun _ => rfl) trivial
  | timeout => exact iff_of_true hf trivial
  | fail => exact iff_of_true hf.exit trivial
  | @dequeue j _ _ _ _ hpc hj hhandled =>
    have hn := fun hmem => (hs.dequeue hpc hj).2 (List.mem_append_left _ hmem)
    have hf' : Faithful { s with completions := s.completions.eraseIdx j } :=
      ⟨hf.each.dequeue j, hf.order⟩
    exact iff_of_true (hf'.handled hn (hf.each.completions _ (List.mem_of_getElem? hj)) hhandled)
      trivial

end Server

section Results

variable {s₀ s : Server} {tr : List (Server × Act)}

/-- In every run nothing that was received of a client is lost while its block is in use, exactly
when every send that is completed has moved all its bytes, or none. Then what has come back to a
client is always the beginning of what it sent. -/
theorem echo_iff (h₀ : iocp.init s₀) (h : iocp.Run s₀ tr s) :
    (((∀ x ∈ tr, x.1.Faithful) ∧ s.Faithful) ↔ ∀ x ∈ tr, x.1.SendsAll x.2) ∧
      ((∀ x ∈ tr, x.1.SendsAll x.2) → ∀ n, (s.peers n).echoed <+: (s.peers n).sent) := by
  obtain rfl : s₀ = .new := h₀
  have hiff := h.forall_iff (I := Server.Sound) (Q := Server.Faithful)
    (fun _ _ _ hs hstep => hs.step (Machine.ofStep_step.mp hstep))
    (fun _ _ _ hs hf hstep => hf.step_iff hs (Machine.ofStep_step.mp hstep)) .new .new
  exact ⟨hiff, fun hall => (hiff.mpr hall).2.isPrefix⟩

/-- Both bytes come back to the client in one send. -/
theorem echo_iff_hello : ∃ tr s, iocp.Run .new tr s ∧ (s.peers 0).echoed = [104, 105] ∧
    (∀ x ∈ tr, x.1.Faithful) ∧ s.Faithful ∧ ∀ n, (s.peers n).echoed <+: (s.peers n).sent := by
  have hview : ((received ++ [Act.sent 9 2]).foldlM
      (fun (s : Server) a => if s.SendsAll a then s.act a else none) .new).map
        (fun s => (s.peers 0).echoed) = some [104, 105] := rfl
  have hstep : ∀ (s : Server) (a : Act) t, (if s.SendsAll a then s.act a else none) = some t →
      iocp.step s a (.ok t) ∧ s.SendsAll a := by
    intro s a t hact
    split at hact
    · exact ⟨Machine.ofStep_step.mpr hact, ‹_›⟩
    · cases hact
  obtain ⟨tr, s, hrun, -, hall, hechoed⟩ := Machine.Run.of_foldlM_steps hstep hview
  obtain ⟨hiff, himp⟩ := echo_iff rfl hrun
  obtain ⟨hsteps, hlast⟩ := hiff.mpr hall
  exact ⟨tr, s, hrun, hechoed, hsteps, hlast, himp hall⟩

end Results

end Iocp

end CellNet
