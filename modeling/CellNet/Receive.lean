import CellNet.Client

/-!
# Receiving messages

The run that alternates `RecvData` with the drain loop, for any handler : `Receiver` is
a client with the messages handed to `OnNetMsg` so far, and `receiver` the machine that
reads one `recv` result and drains.

One pass of the loop takes one complete frame off the stored bytes (`drain_body`), so
the loop, when it ends, has split them (`drain_ends`), and it ends exactly when they
can be split (`drain_takesMessages`). A run has then split everything it received
(`Received.splits`), wherever the stream was cut. From this come :

* `dispatch_independent_of_cuts` : with well-formed messages the run dispatches exactly
  the complete ones, and there is always room for the next `recv`;
* `drain_frames_iff` : on arbitrary bytes the loop ends and dispatches real frames only
  if no frame boundary announces less than a header;
* `never_stuck_iff` : a connection gets stuck on a full buffer exactly when a message
  longer than the buffer fills it.
-/

namespace CellNet

/-- A client with the messages dispatched so far. -/
structure Receiver where
  client : CELLClient
  dispatched : List (List UInt8)

namespace Receiver

variable (h : Handler)

/-- The received bytes not dispatched yet. -/
def bytes (s : Receiver) : List UInt8 :=
  s.client.recvBuff.bytes

/-- The size of the receive buffer. -/
def nSize (s : Receiver) : ℤ :=
  s.client.recvBuff.nSize

/-- The room `recv` is asked to fill. -/
def free (s : Receiver) : ℤ :=
  s.client.recvBuff.free

/-- The receive buffer is well formed. -/
def WF (s : Receiver) : Prop :=
  s.client.recvBuff.WF

/-- `OnNetMsg` : the message is recorded and handled. -/
def onNetMsg (s : Receiver) (header : List UInt8) : Exec Receiver := do
  let n ← dataLength header
  let msg ← Block.load header 0 n
  return ⟨h.onNetMsg s.client header, s.dispatched ++ [msg]⟩

/-- `pop_front_msg`. -/
def popFrontMsg (s : Receiver) : Exec Receiver := do
  let client ← s.client.popFrontMsg
  return { s with client }

/-- The drain loop. -/
def drain : Loop Receiver UB :=
  drainLoop (fun s => .ok s.client) (onNetMsg h) popFrontMsg

theorem length_bytes {s : Receiver} (hs : s.WF) : (s.bytes.length : ℤ) + s.free = s.nSize := by
  have h := CELLBuffer.WF.length_bytes hs
  unfold bytes free nSize CELLBuffer.free
  omega

theorem length_bytes_le {s : Receiver} (hs : s.WF) : (s.bytes.length : ℤ) ≤ s.nSize := by
  have h := length_bytes hs
  have hfree : 0 ≤ s.free := CELLBuffer.WF.free_nonneg hs
  omega

/-- `RecvData` reads nothing and changes nothing, or appends what it reads. -/
theorem recvData_cases {s : Receiver} (hs : s.WF) (r : RecvResult) :
    (∃ ret, ¬0 < ret ∧ r.data s.free = [] ∧ s.client.recvData r = .ok (ret, s.client)) ∨
    ∃ c, (0 : ℤ) < (r.data s.free).length ∧
      s.client.recvData r = .ok (((r.data s.free).length : ℤ), c) ∧
      WF { s with client := c } ∧ nSize { s with client := c } = s.nSize ∧
      bytes { s with client := c } = s.bytes ++ r.data s.free := by
  have hnonneg : 0 ≤ s.free := CELLBuffer.WF.free_nonneg hs
  rcases hnonneg.eq_or_lt with hfull | hfree
  · have hread := CELLBuffer.WF.read4socket_of_full hs hfull.symm r
    refine Or.inl ⟨0, by decide, by cases r <;> simp [RecvResult.data, ← hfull], ?_⟩
    simp only [CELLClient.recvData, hread, Fallible.ok_bind, Fallible.pure_eq]
  · rcases CELLBuffer.WF.read4socket_of_free hs hfree r with
      ⟨hnil, hread⟩ | ⟨hne, b, hread, hb, hsize, hbytes⟩
    · refine Or.inl ⟨SOCKET_ERROR, by decide, hnil, ?_⟩
      simp only [CELLClient.recvData, hread, Fallible.ok_bind, Fallible.pure_eq]
    · refine Or.inr ⟨{ s.client with recvBuff := b }, ?_, ?_, hb, hsize, hbytes⟩
      · exact_mod_cast List.length_pos_of_ne_nil hne
      · simp only [CELLClient.recvData, hread, Fallible.ok_bind, Fallible.pure_eq]
        rfl

/-! ## One pass -/

/-- A pass takes the frame in front off the stored bytes. -/
theorem drain_body_of_complete {s : Receiver} (hs : s.WF)
    (hc : netmsgFraming.Complete s.bytes) : ∃ t, (drain h).body s = .ok (some t) ∧ t.WF ∧
      t.nSize = s.nSize ∧ t.bytes = s.bytes.drop (headerLen s.bytes) ∧
      t.dispatched = s.dispatched ++ [s.bytes.take (headerLen s.bytes)] := by
  obtain ⟨r, hr, hiff⟩ := CELLBuffer.WF.hasMsg_eq hs
  obtain ⟨h4, hle⟩ := netmsgFraming_complete.mp hc
  have hrt : r = true := hiff.mpr hc
  have hlen := CELLBuffer.WF.headerLen_pBuff hs h4
  have hpre := CELLBuffer.WF.bytes_prefix hs
  have hload : Block.load s.client.recvBuff.pBuff 0 (headerLen s.bytes : ℕ) =
      .ok (s.bytes.take (headerLen s.bytes)) := by
    have hb := hpre.length_le
    have hload := Block.load_eq s.client.recvBuff.pBuff 0 (headerLen s.bytes)
      (by unfold bytes at *; omega)
    obtain ⟨zs, hzs⟩ := hpre
    rw [Nat.cast_zero, List.drop_zero] at hload
    rw [hload, ← hzs]
    exact congrArg _ (List.take_append_of_le_length hle)
  set c := h.onNetMsg s.client s.client.frontMsg with hcdef
  have hrecv : c.recvBuff = s.client.recvBuff := h.recvBuff_eq _ _
  obtain ⟨b, hpop, hwf, hsize, hbytes⟩ :=
    CELLClient.popFrontMsg_eq (c := c) (by rw [hrecv]; exact hs) (by rw [hrecv]; exact hc)
  refine ⟨⟨{ c with recvBuff := b }, s.dispatched ++ [s.bytes.take (headerLen s.bytes)]⟩, ?_,
    hwf, by rw [nSize, hsize, hrecv]; rfl, by rw [bytes, hbytes, hrecv]; rfl, rfl⟩
  have hmsg : onNetMsg h s s.client.frontMsg =
      .ok ⟨c, s.dispatched ++ [s.bytes.take (headerLen s.bytes)]⟩ := by
    rw [onNetMsg, CELLClient.frontMsg, CELLBuffer.data, hlen, Fallible.ok_bind]
    exact congrArg (· >>= _) hload
  simp only [drain, drainLoop, Fallible.ok_bind, CELLClient.hasMsg, hr, hrt, if_true, hmsg,
    popFrontMsg, hpop, Fallible.pure_eq]

theorem drain_body_of_not_complete {s : Receiver} (hs : s.WF)
    (hc : ¬netmsgFraming.Complete s.bytes) : (drain h).body s = .ok none :=
  drainLoop_body_none rfl hs hc

/-- What one pass does, read off its outcome. -/
theorem of_drain_pass {s t : Receiver} (hs : s.WF) (hb : (drain h).body s = .ok (some t)) :
    netmsgFraming.Complete s.bytes ∧ t.WF ∧ t.nSize = s.nSize ∧
      t.bytes = s.bytes.drop (headerLen s.bytes) ∧
      t.dispatched = s.dispatched ++ [s.bytes.take (headerLen s.bytes)] := by
  by_cases hc : netmsgFraming.Complete s.bytes
  · obtain ⟨t', ht', hrest⟩ := drain_body_of_complete h hs hc
    rw [hb, Except.ok.injEq, Option.some.injEq] at ht'
    subst ht'
    exact ⟨hc, hrest⟩
  · rw [drain_body_of_not_complete h hs hc] at hb
    simp at hb

/-! ## The whole loop -/

/-- When the loop ends it has split the stored bytes. -/
theorem drain_ends {s : Receiver} {r : Exec Receiver} (hs : s.WF) (hr : (drain h).Ends s r) :
    ∃ t fs, r = .ok t ∧ t.WF ∧ t.nSize = s.nSize ∧ netmsgFraming.Splits s.bytes fs t.bytes ∧
      t.dispatched = s.dispatched ++ fs := by
  obtain ⟨n, hn⟩ := hr
  induction n generalizing s with
  | zero => simp [Loop.run] at hn
  | succ n ih =>
    by_cases hc : netmsgFraming.Complete s.bytes
    · obtain ⟨t, hb, ht, hsize, hbytes, hdisp⟩ := drain_body_of_complete h hs hc
      simp only [Loop.run, hb] at hn
      obtain ⟨u, fs, rfl, hu, husize, hsplit, hudisp⟩ := ih ht hn
      obtain ⟨h4, hle⟩ := netmsgFraming_complete.mp hc
      refine ⟨u, s.bytes.take (headerLen s.bytes) :: fs, rfl, hu, husize.trans hsize, ?_, ?_⟩
      · rw [hbytes] at hsplit
        exact .frame (netmsgFraming_frameLen.mpr ⟨h4, rfl⟩) hle hsplit
      · rw [hudisp, hdisp, List.append_assoc]
        rfl
    · simp only [Loop.run, drain_body_of_not_complete h hs hc, Option.some.injEq] at hn
      exact ⟨s, [], hn.symm, hs, rfl, .done hc, by simp⟩

theorem drain_takesMessages : (drain h).TakesMessages fun s bs => s.WF ∧ s.bytes = bs where
  pass := by
    rintro s _ ⟨hs, rfl⟩ hc
    obtain ⟨t, hb, ht, -, hbytes, -⟩ := drain_body_of_complete h hs hc
    exact ⟨t, hb, ht, hbytes⟩
  exit := by
    rintro s _ ⟨hs, rfl⟩ hc
    exact drain_body_of_not_complete h hs hc

/-- The passes from a state reach every frame boundary of its stored bytes. -/
theorem passes_of_boundary {s : Receiver} (hs : s.WF) {ys : List UInt8}
    (hb : netmsgFraming.Boundary s.bytes ys) :
    ∃ t, (drain h).Passes s t ∧ t.WF ∧ t.bytes = ys := by
  induction hb with
  | start => exact ⟨s, .refl, hs, rfl⟩
  | next _ hn hle ih =>
    obtain ⟨t, hp, ht, rfl⟩ := ih
    obtain ⟨u, hu, huwf, -, hbytes, -⟩ := drain_body_of_complete h ht ⟨_, hn, hle⟩
    obtain ⟨-, rfl⟩ := netmsgFraming_frameLen.mp hn
    exact ⟨u, hp.tail hu, huwf, hbytes⟩

theorem boundary_of_passes {s t : Receiver} (hs : s.WF) (hp : (drain h).Passes s t) :
    t.WF ∧ netmsgFraming.Boundary s.bytes t.bytes := by
  refine hp.invariant (I := fun t => t.WF ∧ netmsgFraming.Boundary s.bytes t.bytes) ?_
    ⟨hs, .start⟩
  rintro u v ⟨hu, hb⟩ hbody
  obtain ⟨hc, hv, -, hbytes, -⟩ := of_drain_pass h hu hbody
  obtain ⟨h4, hle⟩ := netmsgFraming_complete.mp hc
  rw [hbytes]
  exact ⟨hv, hb.next (netmsgFraming_frameLen.mpr ⟨h4, rfl⟩) hle⟩

end Receiver

/-! ## Runs -/

/-- One `RecvData` and, if it read something, the drain loop, from a new client with a
receive buffer of `nSize` bytes. -/
def receiver (h : Handler) (nSize : ℤ) : Machine Receiver RecvResult UB where
  init s := ∃ fd sendSize sendMem recvMem,
    s = ⟨.new fd sendSize nSize sendMem recvMem, []⟩
  step s r out :=
    match s.client.recvData r with
    | .error e => out = .error e
    | .ok (nLen, client) =>
      if 0 < nLen then (Receiver.drain h).Ends { s with client } out
      else out = .ok { s with client }

/-- The bytes a run received. -/
def received (tr : List (Receiver × RecvResult)) : List UInt8 :=
  (tr.map fun x => x.2.data x.1.free).flatten

theorem received_snoc (tr : List (Receiver × RecvResult)) (s : Receiver) (r : RecvResult) :
    received (tr ++ [(s, r)]) = received tr ++ r.data s.free := by
  simp [received]

theorem received_append (tr tr' : List (Receiver × RecvResult)) :
    received (tr ++ tr') = received tr ++ received tr' := by
  simp [received]

/-- A state after `xs` was received : everything dispatched fitted the buffer, and `xs`
is split into it and what is stored. -/
structure Received (nSize : ℤ) (xs : List UInt8) (s : Receiver) : Prop where
  wf : s.WF
  size : s.nSize = nSize
  splits : netmsgFraming.Splits xs s.dispatched s.bytes
  fit : ∀ f ∈ s.dispatched, (f.length : ℤ) ≤ nSize

namespace Received

variable {h : Handler} {nSize : ℤ} {s t : Receiver} {xs : List UInt8}

theorem init (h0 : 0 ≤ nSize) (hlt : nSize < 2147483648) (hs : (receiver h nSize).init s) :
    Received nSize [] s := by
  obtain ⟨fd, sendSize, sendMem, recvMem, rfl⟩ := hs
  refine ⟨CELLBuffer.new_wf h0 hlt recvMem, rfl, ?_, by simp⟩
  have hbytes : Receiver.bytes ⟨.new fd sendSize nSize sendMem recvMem, []⟩ = [] :=
    CELLBuffer.bytes_new _ _
  rw [hbytes]
  exact .done netmsgFraming_not_complete_nil

/-- What one step does : it fails or has no room and changes nothing, or what it reads
and the bytes stored before are split. -/
theorem step_cases (hs : Received nSize xs s) {r : RecvResult} {out : Exec Receiver}
    (hstep : (receiver h nSize).step s r out) : ∃ t, out = .ok t ∧
      Received nSize (xs ++ r.data s.free) t := by
  obtain ⟨hwf, hsize, hsplit, hfit⟩ := hs
  rcases Receiver.recvData_cases hwf r with ⟨ret, hret, hnil, hrecv⟩ |
    ⟨c, hpos, hrecv, hc, hcsize, hcbytes⟩
  · simp only [receiver, hrecv, if_neg hret] at hstep
    refine ⟨s, hstep, ?_⟩
    rw [hnil, List.append_nil]
    exact ⟨hwf, hsize, hsplit, hfit⟩
  · simp only [receiver, hrecv, if_pos hpos] at hstep
    obtain ⟨t, fs, rfl, ht, htsize, htsplit, hdisp⟩ := Receiver.drain_ends h hc hstep
    rw [hcbytes] at htsplit
    have htn : t.nSize = nSize := htsize.trans (hcsize.trans hsize)
    refine ⟨t, rfl, ht, htn, hdisp ▸ hsplit.append htsplit, fun f hf => ?_⟩
    rw [hdisp] at hf
    rcases List.mem_append.mp hf with hf | hf
    · exact hfit f hf
    · have hle := htsplit.length_le_of_mem hf
      have hlen := Receiver.length_bytes_le hc
      rw [hcbytes, hcsize, hsize] at hlen
      omega

/-- A step that can split what is stored and what it reads has an outcome. -/
theorem step_exists (hs : Received nSize xs s) (r : RecvResult)
    (hsplit : ∃ fs t, netmsgFraming.Splits (xs ++ r.data s.free) fs t) :
    ∃ t, (receiver h nSize).step s r (.ok t) := by
  rcases Receiver.recvData_cases hs.wf r with ⟨ret, hret, hnil, hrecv⟩ |
    ⟨c, hpos, hrecv, hc, -, hcbytes⟩
  · exact ⟨s, by simp only [receiver, hrecv, if_neg hret]⟩
  · have hb := (hs.splits.boundary .start).append (r.data s.free)
    obtain ⟨fs, t, hsplit⟩ := hsplit
    obtain ⟨fs', hsplit'⟩ := hb.splits hsplit
    obtain ⟨t, hend⟩ := (Receiver.drain_takesMessages h).ends_of_splits hsplit' ⟨hc, hcbytes⟩
    exact ⟨t, by simpa only [receiver, hrecv, if_pos hpos] using hend⟩

/-- A run splits everything it received. -/
theorem of_run (h0 : 0 ≤ nSize) (hlt : nSize < 2147483648) {s₀ : Receiver}
    (hs₀ : (receiver h nSize).init s₀) {tr : List (Receiver × RecvResult)}
    (hrun : (receiver h nSize).Run s₀ tr s) : Received nSize (received tr) s := by
  induction hrun with
  | nil => exact init h0 hlt hs₀
  | snoc _ hstep ih =>
    obtain ⟨t, ht, hrec⟩ := ih.step_cases hstep
    rw [received_snoc]
    rw [Except.ok.injEq] at ht
    exact ht ▸ hrec

end Received

/-! ## Well-formed messages -/

/-- A message whose first two bytes hold its length, header included. -/
def IsMsg (m : List UInt8) : Prop :=
  4 ≤ m.length ∧ headerLen m = m.length

theorem IsMsg.isFrame {m : List UInt8} (h : IsMsg m) : netmsgFraming.IsFrame m :=
  netmsgFraming_frameLen.mpr h

/-- A prefix of a stream of messages splits into the complete ones. -/
theorem splits_of_prefix {msgs : List (List UInt8)} (hmsgs : ∀ m ∈ msgs, IsMsg m)
    {xs : List UInt8} (hpre : xs <+: msgs.flatten) : ∃ fs rest t, msgs = fs ++ rest ∧
      netmsgFraming.Splits xs fs t ∧ (rest = [] → t = []) ∧
        ∀ m rest', rest = m :: rest' → t <+: m ∧ t.length < m.length := by
  have hne : ∀ m ∈ msgs, m ≠ [] := fun m hm h0 => by
    have := (hmsgs m hm).1
    simp [h0] at this
  obtain ⟨fs, rest, t, rfl, rfl, hnil, hcons⟩ := Framing.prefix_flatten_cases hne hpre
  refine ⟨fs, rest, t, rfl, .of_frames ?_ fun f hf => ?_, hnil, hcons⟩
  · cases rest with
    | nil => simp [hnil rfl, netmsgFraming_complete]
    | cons m rest' =>
      obtain ⟨hp, hlt⟩ := hcons m rest' rfl
      exact (hmsgs m (by simp)).isFrame.not_complete_of_prefix hp hlt
  · exact (hmsgs f (by simp [hf])).isFrame

/-- A `recv` result of between one byte and the room there is. -/
def RecvResult.Fits (r : RecvResult) (free : ℤ) : Prop :=
  ∃ bs, r = .avail bs ∧ 1 ≤ bs.length ∧ (bs.length : ℤ) ≤ free

/-- Framing does not depend on the cuts. When what a run received is a prefix of a
stream of messages that fit the buffer, it has dispatched exactly the complete messages
and keeps the incomplete rest; it has room for more, and any further part of the stream
is read and drained without a fault. -/
theorem dispatch_independent_of_cuts (h : Handler) (nSize : ℤ) (hpos : 0 < nSize)
    (hint : nSize < 2147483648) (msgs : List (List UInt8))
    (hmsgs : ∀ m ∈ msgs, IsMsg m ∧ (m.length : ℤ) ≤ nSize) {s₀ s : Receiver}
    {tr : List (Receiver × RecvResult)} (hinit : (receiver h nSize).init s₀)
    (hrun : (receiver h nSize).Run s₀ tr s) (hstream : received tr <+: msgs.flatten) :
    (∃ rest, msgs = s.dispatched ++ rest ∧ received tr = s.dispatched.flatten ++ s.bytes ∧
      (rest = [] → s.bytes = []) ∧
      ∀ m rest', rest = m :: rest' → s.bytes <+: m ∧ s.bytes.length < m.length) ∧
    0 < s.free ∧
    ∀ bs, (RecvResult.avail bs).Fits s.free → received tr ++ bs <+: msgs.flatten →
      (∃ t, (receiver h nSize).step s (.avail bs) (.ok t)) ∧
        ∀ e, ¬(receiver h nSize).step s (.avail bs) (.error e) := by
  have hmsg : ∀ m ∈ msgs, IsMsg m := fun m hm => (hmsgs m hm).1
  have hrec := Received.of_run hpos.le hint hinit hrun
  obtain ⟨fs, rest, t, hms, hsplit, hnil, hcons⟩ := splits_of_prefix hmsg hstream
  obtain ⟨rfl, rfl⟩ := hrec.splits.unique hsplit
  refine ⟨⟨rest, hms, hsplit.flatten.symm, hnil, hcons⟩, ?_, fun bs hfits hmore => ⟨?_, ?_⟩⟩
  · have hlen := Receiver.length_bytes hrec.wf
    rw [hrec.size] at hlen
    cases rest with
    | nil =>
      rw [hnil rfl, List.length_nil] at hlen
      omega
    | cons m rest' =>
      have hlt := (hcons m rest' rfl).2
      have hle := (hmsgs m (by simp [hms])).2
      omega
  · refine hrec.step_exists _ ?_
    obtain ⟨bs', heq, -, hle⟩ := hfits
    obtain rfl : bs = bs' := by simpa using heq
    rw [RecvResult.data, List.take_of_length_le (by omega)]
    obtain ⟨fs', -, t', -, hsplit', -⟩ := splits_of_prefix hmsg hmore
    exact ⟨fs', t', hsplit'⟩
  · rintro e hstep
    obtain ⟨t, ht, -⟩ := hrec.step_cases hstep
    simp at ht

/-- A client with the receive buffer `b`, for runs on fixed inputs. -/
def Receiver.withBuffer (b : CELLBuffer) (dispatched : List (List UInt8)) : Receiver :=
  ⟨{ CELLClient.new 3 0 b.nSize (fun _ => 0) (fun _ => 0) with recvBuff := b }, dispatched⟩

/-- A heartbeat and a message of six bytes, cut inside both headers. -/
theorem dispatch_of_cut_headers :
    (∃ rest : List (List UInt8), [[4, 0, 15, 0], [6, 0, 11, 0, 1, 2]] = [[4, 0, 15, 0]] ++ rest) ∧
      0 < (Receiver.withBuffer ⟨[6, 0, 15, 0, 6, 0, 0, 0], 2, 8, 0⟩ [[4, 0, 15, 0]]).free := by
  have h1 : (receiver .ignore 8).step (.withBuffer (.new 8 fun _ => 0) [])
      (.avail [4, 0, 15]) (.ok (.withBuffer ⟨[4, 0, 15, 0, 0, 0, 0, 0], 3, 8, 0⟩ [])) :=
    show (Receiver.drain _).Ends _ _ from ⟨1, rfl⟩
  have h2 : (receiver .ignore 8).step (.withBuffer ⟨[4, 0, 15, 0, 0, 0, 0, 0], 3, 8, 0⟩ [])
      (.avail [0, 6, 0])
      (.ok (.withBuffer ⟨[6, 0, 15, 0, 6, 0, 0, 0], 2, 8, 0⟩ [[4, 0, 15, 0]])) :=
    show (Receiver.drain _).Ends _ _ from ⟨2, rfl⟩
  obtain ⟨⟨rest, hrest, -⟩, hfree, -⟩ := dispatch_independent_of_cuts .ignore 8
    (by decide) (by decide) [[4, 0, 15, 0], [6, 0, 11, 0, 1, 2]]
    (by simp only [List.forall_mem_cons]; unfold IsMsg; decide)
    ⟨3, 0, fun _ => 0, fun _ => 0, rfl⟩ ((Machine.Run.single h1).snoc h2) (by decide)
  exact ⟨⟨rest, hrest⟩, hfree⟩

/-! ## Arbitrary bytes -/

/-- The loop ends, each pass shrinks the stored data, and each dispatched header
announces at least a header and at most what is stored. -/
structure DrainsFrames (h : Handler) (s : Receiver) : Prop where
  ends : ∃ t, (Receiver.drain h).Ends s (.ok t)
  shrinks : ∀ t u, (Receiver.drain h).Passes s t → (Receiver.drain h).body t = .ok (some u) →
    u.client.recvBuff.nLast < t.client.recvBuff.nLast
  frames : ∀ t u, (Receiver.drain h).Passes s t → (Receiver.drain h).body t = .ok (some u) →
    ∃ n, dataLength t.client.frontMsg = .ok n ∧ sizeofDataHeader ≤ n ∧
      (n : ℤ) ≤ t.client.recvBuff.nLast

/-- No message header among the bytes, read as a chain of messages, announces less than
a header. -/
def HeadersValid (bs : List UInt8) : Prop :=
  ∀ ys, netmsgFraming.Boundary bs ys → 4 ≤ ys.length → 4 ≤ headerLen ys

theorem DrainsFrames.of_headersValid (h : Handler) {s : Receiver} (hs : s.WF)
    (hv : HeadersValid s.bytes) : DrainsFrames h s := by
  have hpass : ∀ t u, (Receiver.drain h).Passes s t →
      (Receiver.drain h).body t = .ok (some u) → 4 ≤ headerLen t.bytes ∧
        netmsgFraming.Complete t.bytes ∧ t.WF ∧ u.WF ∧
        u.bytes = t.bytes.drop (headerLen t.bytes) := by
    intro t u hp hb
    obtain ⟨ht, hbd⟩ := Receiver.boundary_of_passes h hs hp
    obtain ⟨hc, hu, -, hbytes, -⟩ := Receiver.of_drain_pass h ht hb
    exact ⟨hv _ hbd (netmsgFraming_complete.mp hc).1, hc, ht, hu, hbytes⟩
  refine ⟨?_, fun t u hp hb => ?_, fun t u hp hb => ?_⟩
  · obtain ⟨fs, t, hsplit⟩ := Framing.splits_iff_pos.mpr fun ys hbd h0 => by
      obtain ⟨h4, hlen⟩ := netmsgFraming_frameLen.mp h0
      have := hv ys hbd h4
      omega
    exact (Receiver.drain_takesMessages h).ends_of_splits hsplit ⟨hs, rfl⟩
  · obtain ⟨h4, hc, ht, hu, hbytes⟩ := hpass t u hp hb
    have hlt := CELLBuffer.WF.length_bytes ht
    have hlu := CELLBuffer.WF.length_bytes hu
    have hle := (netmsgFraming_complete.mp hc).2
    have hdrop := congrArg List.length hbytes
    simp only [List.length_drop] at hdrop
    unfold Receiver.bytes at *
    omega
  · obtain ⟨h4, hc, ht, -, -⟩ := hpass t u hp hb
    have hle := netmsgFraming_complete.mp hc
    have hlt := CELLBuffer.WF.length_bytes ht
    refine ⟨headerLen t.bytes, CELLBuffer.WF.headerLen_pBuff ht hle.1, h4, ?_⟩
    unfold Receiver.bytes at *
    omega

theorem DrainsFrames.headersValid {h : Handler} {s : Receiver} (hs : s.WF)
    (hd : DrainsFrames h s) : HeadersValid s.bytes := by
  intro ys hb h4
  by_contra hshort
  obtain ⟨t, hp, ht, rfl⟩ := Receiver.passes_of_boundary h hs hb
  have hc : netmsgFraming.Complete t.bytes := netmsgFraming_complete.mpr ⟨h4, by omega⟩
  obtain ⟨u, hu, -⟩ := Receiver.drain_body_of_complete h ht hc
  obtain ⟨n, hn, hle, -⟩ := hd.frames t u hp hu
  have hlen := CELLBuffer.WF.headerLen_pBuff ht h4
  rw [CELLClient.frontMsg, CELLBuffer.data, hlen, Except.ok.injEq] at hn
  unfold sizeofDataHeader at hle
  unfold Receiver.bytes at hshort
  omega

/-- On any content of the receive buffer, the drain loop ends and dispatches only real
frames exactly when every header among the stored bytes announces at least a header. -/
theorem drain_frames_iff (h : Handler) {s : Receiver} (hs : s.WF) :
    DrainsFrames h s ↔ HeadersValid s.bytes :=
  ⟨fun hd => hd.headersValid hs, .of_headersValid h hs⟩

/-- A heartbeat in the buffer is dispatched. -/
theorem drain_frames_iff_heart :
    DrainsFrames .ignore (.withBuffer ⟨[4, 0, 15, 0], 4, 4, 0⟩ []) := by
  refine (drain_frames_iff .ignore ⟨rfl, by decide, by decide, by decide⟩).mpr ?_
  intro ys hb h4
  have hys : ys = [4, 0, 15, 0] ∨ ys = [] := by
    induction hb with
    | start => exact Or.inl rfl
    | next _ hn hle ih =>
      obtain ⟨hlen, rfl⟩ := netmsgFraming_frameLen.mp hn
      rcases ih hlen with rfl | rfl
      · exact Or.inr rfl
      · cases hlen
  rcases hys with rfl | rfl
  · decide
  · cases h4

/-- A header that announces `0` is dispatched for ever. -/
theorem drain_forever_of_zero (h : Handler) {s : Receiver} (hs : s.WF) (h4 : 4 ≤ s.bytes.length)
    (h0 : headerLen s.bytes = 0) (r : Exec Receiver) : ¬(Receiver.drain h).Ends s r := by
  refine Loop.not_ends_of_forever (I := fun t => t.WF ∧ t.bytes = s.bytes) ?_ ⟨hs, rfl⟩ r
  rintro t ⟨ht, hb⟩
  obtain ⟨u, hu, huwf, -, hbytes, -⟩ := Receiver.drain_body_of_complete h ht
    (netmsgFraming_complete.mpr ⟨hb ▸ h4, by rw [hb]; omega⟩)
  rw [hb, h0, List.drop_zero] at hbytes
  exact ⟨u, hu, huwf, hbytes⟩

/-- Four zero bytes from the peer : the loop does not end, and what it dispatches is no
frame. -/
theorem not_drainsFrames_zero_header :
    (∀ r, ¬(Receiver.drain .ignore).Ends (.withBuffer ⟨[0, 0, 0, 0], 4, 4, 0⟩ []) r) ∧
      ¬DrainsFrames .ignore (.withBuffer ⟨[0, 0, 0, 0], 4, 4, 0⟩ []) := by
  have hs : (Receiver.withBuffer ⟨[0, 0, 0, 0], 4, 4, 0⟩ []).WF :=
    ⟨rfl, by decide, by decide, by decide⟩
  have hforever := drain_forever_of_zero .ignore hs (by decide) (by decide)
  refine ⟨hforever, fun hd => ?_⟩
  obtain ⟨t, ht⟩ := hd.ends
  exact hforever _ ht

/-! ## Full buffers -/

/-- Nothing to dispatch, and `RecvData` returns `0` without reading. -/
def Stuck (s : Receiver) : Prop :=
  s.client.hasMsg = .ok false ∧ ∃ r, s.client.recvData r = .ok (0, s.client)

/-- A drained buffer is stuck exactly when it is full. -/
theorem Received.stuck_iff {nSize : ℤ} {xs : List UInt8} {s : Receiver}
    (hs : Received nSize xs s) : Stuck s ↔ (s.bytes.length : ℤ) = nSize := by
  have hlen := Receiver.length_bytes hs.wf
  rw [hs.size] at hlen
  have hfree : 0 ≤ s.free := CELLBuffer.WF.free_nonneg hs.wf
  constructor
  · rintro ⟨-, r, hr⟩
    by_contra hne
    rcases CELLBuffer.WF.read4socket_of_free hs.wf (show 0 < s.free by omega) r with
      ⟨-, hread⟩ | ⟨hdata, b, hread, -⟩
    · simp [CELLClient.recvData, hread, SOCKET_ERROR] at hr
    · simp [CELLClient.recvData, hread, hdata] at hr
  · intro hfull
    obtain ⟨b, hb, hiff⟩ := CELLBuffer.WF.hasMsg_eq hs.wf
    have hbf : b = false := by
      rw [← Bool.not_eq_true, hiff]
      exact hs.splits.not_complete
    refine ⟨by rw [CELLClient.hasMsg, hb, hbf], .fail, ?_⟩
    have hread := CELLBuffer.WF.read4socket_of_full hs.wf (show s.free = 0 by omega) .fail
    simp only [CELLClient.recvData, hread, Fallible.ok_bind, Fallible.pure_eq]

/-- No message that announces more than the buffer holds arrives far enough to fill
it. -/
def NeverFills (nSize : ℤ) (bs : List UInt8) : Prop :=
  ∀ ys n, netmsgFraming.Boundary bs ys → netmsgFraming.frameLen ys = some n → nSize < n →
    (ys.length : ℤ) < nSize

theorem Received.not_stuck_of_neverFills {nSize : ℤ} (h4 : 4 ≤ nSize) {xs zs : List UInt8}
    {s : Receiver} (hs : Received nSize xs s) (hn : NeverFills nSize (xs ++ zs)) : ¬Stuck s := by
  rw [hs.stuck_iff]
  intro hfull
  have hb := (hs.splits.boundary .start).append zs
  have hlen : netmsgFraming.frameLen s.bytes = some (headerLen s.bytes) :=
    netmsgFraming_frameLen.mpr ⟨by omega, rfl⟩
  have hnc := hs.splits.not_complete
  rw [netmsgFraming_complete] at hnc
  have := hn _ _ hb (netmsgFraming.stable _ zs _ hlen) (by omega)
  rw [List.length_append] at this
  omega

/-- Along a run from a new client the connection is never stuck on a full receive buffer
exactly when no message that announces more than the buffer holds fills it. -/
theorem never_stuck_iff (h : Handler) {nSize : ℤ} (h4 : 4 ≤ nSize) (hint : nSize < 2147483648)
    {s₀ s : Receiver} {tr : List (Receiver × RecvResult)}
    (hinit : (receiver h nSize).init s₀) (hrun : (receiver h nSize).Run s₀ tr s) :
    ((∀ x ∈ tr, ¬Stuck x.1) ∧ ¬Stuck s) ↔ NeverFills nSize (received tr) := by
  have hrec := Received.of_run (by omega) hint hinit hrun
  constructor
  · rintro ⟨-, hns⟩ ys n hb hn hlt
    rcases hrec.splits.boundary_cases hb with rfl | ⟨f, hf, hlen⟩
    · have hle := Receiver.length_bytes_le hrec.wf
      rw [hrec.size] at hle
      rw [hrec.stuck_iff] at hns
      omega
    · rw [hn, Option.some.injEq] at hlen
      have := hrec.fit f hf
      omega
  · intro hn
    refine ⟨fun x hx => ?_, ?_⟩
    · obtain ⟨pre, post, hpre, hcat⟩ := hrun.of_mem hx
      rw [hcat, received_append] at hn
      exact (Received.of_run (by omega) hint hinit hpre).not_stuck_of_neverFills h4 hn
    · rw [← List.append_nil (received tr)] at hn
      exact hrec.not_stuck_of_neverFills h4 hn

/-- Four bytes of a message of five, in a buffer of four. -/
theorem stuck_on_oversize :
    ∃ s₀ tr s, (receiver .ignore 4).init s₀ ∧ (receiver .ignore 4).Run s₀ tr s ∧ Stuck s := by
  have h1 : (receiver .ignore 4).step (.withBuffer (.new 4 fun _ => 0) []) (.avail [5, 0, 15, 0])
      (.ok (.withBuffer ⟨[5, 0, 15, 0], 4, 4, 0⟩ [])) :=
    show (Receiver.drain _).Ends _ _ from ⟨1, rfl⟩
  exact ⟨_, _, _, ⟨3, 0, fun _ => 0, fun _ => 0, rfl⟩, .single h1, rfl, .avail [1], rfl⟩

theorem never_stuck_iff_oversize :
    ¬((∀ x ∈ [(Receiver.withBuffer (.new 4 fun _ => 0) [], RecvResult.avail [5, 0, 15, 0])],
      ¬Stuck x.1) ∧ ¬Stuck (.withBuffer ⟨[5, 0, 15, 0], 4, 4, 0⟩ [])) := by
  have h1 : (receiver .ignore 4).step (.withBuffer (.new 4 fun _ => 0) []) (.avail [5, 0, 15, 0])
      (.ok (.withBuffer ⟨[5, 0, 15, 0], 4, 4, 0⟩ [])) :=
    show (Receiver.drain _).Ends _ _ from ⟨1, rfl⟩
  intro hns
  have hfills := (never_stuck_iff .ignore (by decide) (by decide)
    ⟨3, 0, fun _ => 0, fun _ => 0, rfl⟩ (.single h1)).mp hns
  exact absurd (hfills [5, 0, 15, 0] 5 .start (by decide) (by decide)) (by decide)

end CellNet
