import CellNet.Client

/-!
# Sending bytes

The send buffer under any order of `push` and `write2socket` : `Sender` is the buffer
with the bytes `send` has accepted and the bytes of the blocks whose `push` returned
true, and `sender` the machine of the two calls.

`Tracks` relates such a state to a `Ledger`, and every step is one of the ledger's
operations or changes nothing (`Tracks.step`). The law the ledger carries is then the
law of the buffer : `send_buffer_fifo`.
-/

namespace CellNet

/-- A send buffer with its history. -/
structure Sender where
  buff : CELLBuffer
  /-- The bytes `send` accepted, in order. -/
  sent : List UInt8
  /-- The blocks whose `push` returned true, in order. -/
  pushed : List UInt8

/-- The calls on a send buffer. -/
inductive SenderAct
  | push (pData : List UInt8)
  | write2socket (sockfd : SOCKET) (r : SendResult)

/-- The state after a `push` of `pData` that returned `out`. -/
def Sender.afterPush (s : Sender) (pData : List UInt8) : Bool × CELLBuffer → Sender
  | (true, buff) => { s with buff, pushed := s.pushed ++ pData }
  | (false, buff) => { s with buff }

/-- The state after a `write2socket`. -/
def Sender.afterWrite (s : Sender) : ℤ × List UInt8 × CELLBuffer → Sender
  | (_, sent, buff) => { s with buff, sent := s.sent ++ sent }

/-- Any calls, from a new buffer of `nSize` bytes. -/
def sender (nSize : ℤ) : Machine Sender SenderAct UB where
  init s := ∃ mem, s = ⟨.new nSize mem, [], []⟩
  step s a out :=
    match a with
    | .push pData => out = s.afterPush pData <$> s.buff.push pData pData.length
    | .write2socket sockfd r => out = s.afterWrite <$> s.buff.write2socket sockfd r

/-- The length of a pushed block and `nLast` do not overflow together. -/
def NoOverflow (s : Sender) : SenderAct → Prop
  | .push pData => s.buff.nLast + pData.length < 2147483648
  | .write2socket _ _ => True

/-- The state is what the ledger says. -/
structure Tracks {cap : ℕ} (s : Sender) (l : Ledger UInt8 cap) : Prop where
  wf : s.buff.WF
  size : s.buff.nSize = cap
  items : s.buff.bytes = l.queue.items
  taken : s.sent = l.taken
  pushed : s.pushed = l.pushed

namespace Tracks

variable {cap : ℕ} {s t : Sender} {l : Ledger UInt8 cap}

theorem free (h : Tracks s l) : (l.queue.free : ℤ) = s.buff.free := by
  have hle := l.queue.length_le
  have hfree := h.wf.free_eq
  rw [h.size, h.items] at hfree
  simp only [Fifo.free]
  omega

/-- A push puts the block into the ledger, or is refused and leaves it. -/
theorem push (h : Tracks s l) (pData : List UInt8)
    (hov : s.buff.nLast + pData.length < 2147483648) :
    ∃ out l', s.buff.push pData pData.length = .ok out ∧
      Tracks (s.afterPush pData out) (l' : Ledger UInt8 cap) := by
  have hfree := h.free
  unfold CELLBuffer.free at hfree
  by_cases hfit : s.buff.nLast + pData.length ≤ s.buff.nSize
  · obtain ⟨b, hb, hwf, hsize, hbytes⟩ := h.wf.push_of_fits (by omega) (le_refl _) hfit
    refine ⟨_, l.push pData (by omega), hb, hwf, hsize.trans h.size, ?_, h.taken, ?_⟩
    · simp only [Sender.afterPush, Ledger.push, Fifo.push, hbytes, h.items, Int.toNat_natCast,
        List.take_length]
    · simp only [Sender.afterPush, Ledger.push, h.pushed]
  · exact ⟨_, l, h.wf.push_of_not_fits (by omega) hov (by omega),
      h.wf.withFullCount _, h.size, h.items, h.taken, h.pushed⟩

/-- A `write2socket` takes the accepted bytes out of the ledger, or leaves it. -/
theorem write2socket (h : Tracks s l) (sockfd : SOCKET) (r : SendResult) :
    ∃ out l', s.buff.write2socket sockfd r = .ok out ∧
      Tracks (s.afterWrite out) (l' : Ledger UInt8 cap) := by
  have hidle : Tracks { s with sent := s.sent ++ [] } l :=
    ⟨h.wf, h.size, h.items, (List.append_nil _).trans h.taken, h.pushed⟩
  rcases h.wf.write2socket_cases sockfd r with hw | hw | ⟨k, b, -, -, hw, hwf, hsize, hbytes⟩
  · exact ⟨_, l, hw, hidle⟩
  · exact ⟨_, l, hw, hidle⟩
  · refine ⟨_, l.take k, hw, hwf, hsize.trans h.size, ?_, ?_, h.pushed⟩
    · simp only [Sender.afterWrite, Ledger.take, Fifo.drop, hbytes, h.items]
    · simp only [Sender.afterWrite, Ledger.take, h.taken, h.items]

/-- Every step is tracked by a ledger. -/
theorem step (h : Tracks s l) {a : SenderAct} (ha : NoOverflow s a) {out : Exec Sender}
    (hstep : (sender cap).step s a out) :
    ∃ t, out = .ok t ∧ ∃ l' : Ledger UInt8 cap, Tracks t l' := by
  cases a with
  | push pData =>
    obtain ⟨o, l', ho, ht⟩ := h.push pData ha
    simp only [sender, ho] at hstep
    exact ⟨_, hstep, l', ht⟩
  | write2socket sockfd r =>
    obtain ⟨o, l', ho, ht⟩ := h.write2socket sockfd r
    simp only [sender, ho] at hstep
    exact ⟨_, hstep, l', ht⟩

/-- Every run is tracked by a ledger. -/
theorem of_run (hcap : (cap : ℤ) < 2147483648) {s₀ : Sender} (hinit : (sender cap).init s₀)
    {tr : List (Sender × SenderAct)} (hrun : (sender cap).Run s₀ tr s)
    (hov : ∀ x ∈ tr, NoOverflow x.1 x.2) : ∃ l : Ledger UInt8 cap, Tracks s l := by
  refine hrun.invariant_of_steps (I := fun s => ∃ l : Ledger UInt8 cap, Tracks s l) ?_ hov ?_
  · rintro s a t ⟨l, hl⟩ ha hstep
    obtain ⟨t', ht, l', hl'⟩ := hl.step ha hstep
    rw [Except.ok.injEq] at ht
    exact ⟨l', ht ▸ hl'⟩
  · obtain ⟨mem, rfl⟩ := hinit
    exact ⟨.empty, CELLBuffer.new_wf (by omega) hcap mem, rfl, CELLBuffer.bytes_new _ _, rfl, rfl⟩

end Tracks

/-- The send buffer is a FIFO byte stream. After any calls, what `send` accepted and
what is stored are together the blocks whose `push` returned true, in call order. Each
further call is defined, and one that fails changes neither `nLast` nor the bytes. -/
theorem send_buffer_fifo (nSize : ℤ) (h0 : 0 ≤ nSize) (hint : nSize < 2147483648)
    {s₀ s : Sender} {tr : List (Sender × SenderAct)} (hinit : (sender nSize).init s₀)
    (hrun : (sender nSize).Run s₀ tr s) (hov : ∀ x ∈ tr, NoOverflow x.1 x.2) :
    s.sent ++ s.buff.bytes = s.pushed ∧
    (∀ a e, NoOverflow s a → ¬(sender nSize).step s a (.error e)) ∧
    (∀ pData b, NoOverflow s (.push pData) →
      s.buff.push pData pData.length = .ok (false, b) →
        b.bytes = s.buff.bytes ∧ b.nLast = s.buff.nLast) ∧
    ∀ sockfd r sent b, s.buff.write2socket sockfd r = .ok (SOCKET_ERROR, sent, b) →
      sent = [] ∧ b.bytes = s.buff.bytes ∧ b.nLast = s.buff.nLast := by
  obtain ⟨cap, rfl⟩ := Int.eq_ofNat_of_zero_le h0
  obtain ⟨l, hl⟩ := Tracks.of_run hint hinit hrun hov
  refine ⟨?_, fun a e ha hstep => ?_, fun pData b ha hb => ?_, fun sockfd r sent b hb => ?_⟩
  · rw [hl.taken, hl.items, hl.pushed]
    exact l.balance
  · obtain ⟨t, ht, -⟩ := hl.step ha hstep
    simp at ht
  · by_cases hfit : s.buff.nLast + pData.length ≤ s.buff.nSize
    · obtain ⟨b', hb', -⟩ := hl.wf.push_of_fits (by omega) (le_refl _) hfit
      simp [hb'] at hb
    · rw [hl.wf.push_of_not_fits (by omega) ha (by omega)] at hb
      obtain rfl : _ = b := by simpa using hb
      exact ⟨rfl, rfl⟩
  · rcases hl.wf.write2socket_cases sockfd r with hw | hw | ⟨k, b', hk, -, hw, -⟩
    · simp [hw, SOCKET_ERROR] at hb
    · rw [hw] at hb
      obtain ⟨rfl, rfl⟩ : [] = sent ∧ s.buff = b := by simpa using hb
      exact ⟨rfl, rfl, rfl⟩
    · rw [hw, Except.ok.injEq, Prod.mk.injEq, SOCKET_ERROR] at hb
      omega

/-- Three bytes, of which the socket takes two, then a block too long for the rest. -/
theorem send_buffer_fifo_partial :
    [1, 2] ++ (CELLBuffer.mk [3, 2, 3, 0] 1 4 1).bytes = [1, 2, 3] := by
  have h1 : (sender 4).step ⟨.new 4 fun _ => 0, [], []⟩ (.push [1, 2, 3])
      (.ok ⟨⟨[1, 2, 3, 0], 3, 4, 0⟩, [], [1, 2, 3]⟩) := rfl
  have h2 : (sender 4).step ⟨⟨[1, 2, 3, 0], 3, 4, 0⟩, [], [1, 2, 3]⟩
      (.write2socket 3 (.accept 2)) (.ok ⟨⟨[3, 2, 3, 0], 1, 4, 0⟩, [1, 2], [1, 2, 3]⟩) := rfl
  have h3 : (sender 4).step ⟨⟨[3, 2, 3, 0], 1, 4, 0⟩, [1, 2], [1, 2, 3]⟩
      (.push [4, 5, 6, 7]) (.ok ⟨⟨[3, 2, 3, 0], 1, 4, 1⟩, [1, 2], [1, 2, 3]⟩) := rfl
  refine (send_buffer_fifo 4 (by decide) (by decide) ⟨fun _ => 0, rfl⟩
    (((Machine.Run.single h1).snoc h2).snoc h3) ?_).1
  simp only [List.cons_append, List.nil_append, List.forall_mem_cons, List.not_mem_nil]
  exact ⟨by unfold NoOverflow; decide, trivial, by unfold NoOverflow; decide, by simp⟩

end CellNet
