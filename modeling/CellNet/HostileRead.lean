import CellNet.Codec

/-!
# Reading hostile bytes

The calls of a `CELLReadStream` over a received message, whatever its bytes are. The block
of the stream is exactly the message, so a call returns only if every range it copies lies
inside the message.

The counts come from the message. `ReadArray` and `ReadString` compute the bytes they need
as a `size_t` and pass them to `canRead`, which takes an `int` : a count that makes the
value of the `int` small, or negative, passes the test. `Sane` is the condition that this
does not happen, and `hostile_reads_safe_iff` says that a sequence of calls is safe exactly
when each of its calls is sane.
-/

namespace CellNet

/-- A call of a reader. The block of a `ReadArray` has room for its elements. -/
inductive ReadCall
  /-- `Read<T>`, and `onlyRead<T>` where `bOffset` is false. -/
  | read (w : Width) (bOffset : Bool)
  | readArray (w : Width) (pArr : List UInt8) (len : ℕ) (hlen : len < 4294967296)
    (hArr : len * w.bytes ≤ pArr.length)
  | readString (str : List UInt8)

/-- What a call reports. -/
inductive ReadReply
  /-- The value, if the call returned true. -/
  | read (v : Option (List UInt8))
  /-- The return value, and the block behind the call. -/
  | readArray (n : ℕ) (pArr : List UInt8)
  /-- The return value, and the string behind the call. -/
  | readString (ok : Bool) (str : List UInt8)

/-- The reply of a call that fails and changes nothing. -/
def ReadCall.failure : ReadCall → ReadReply
  | .read .. => .read none
  | .readArray _ pArr .. => .readArray 0 pArr
  | .readString str => .readString false str

namespace CELLStream

variable {s t : CELLStream} {rest : List UInt8} {call : ReadCall} {reply : ReadReply}

/-- One call. -/
def readCall (s : CELLStream) : ReadCall → Exec (ReadReply × CELLStream)
  | .read w bOffset => do
    let (v, s) ← s.read w.bytes bOffset
    return (.read v, s)
  | .readArray w pArr len _ _ => do
    let (n, pArr, s) ← s.readArray w.bytes pArr len
    return (.readArray n pArr, s)
  | .readString str => do
    let (ok, str, s) ← s.readString str
    return (.readString ok str, s)

/-- A reader over a message that was received. -/
def ofMessage (bytes : List UInt8) : CELLStream :=
  ⟨bytes, bytes.length, bytes.length, 0, []⟩

/-- The bytes that are left of the message. -/
def remaining (s : CELLStream) : ℤ :=
  s.nSize - s.nReadPos

/-- The count in front of the reader, or 0 where fewer than four bytes are left. -/
def count (s : CELLStream) : ℕ :=
  if 4 ≤ s.remaining then ofLE ((s.pBuff.drop s.nReadPos.toNat).take 4) else 0

/-- The bytes that `n` elements of `w` bytes and their count need. -/
def needed (n w : ℕ) : ℕ :=
  n * w + 4

/-- The call needs more bytes than are left. -/
def Lacks (s : CELLStream) : ReadCall → Prop
  | .read w _ => s.remaining < w.bytes
  | .readArray w .. => s.remaining < needed s.count w.bytes
  | .readString _ => s.remaining < needed s.count 1

/-- The call copies nothing from outside the message and leaves the read position in it,
and a call that lacks bytes fails, with its destination and the position unchanged. -/
def SafeCall (s : CELLStream) (call : ReadCall) (t : CELLStream) : Prop :=
  ∃ reply, s.readCall call = .ok (reply, t) ∧ 0 ≤ t.nReadPos ∧ t.nReadPos ≤ t.nSize ∧
    (s.Lacks call → reply = call.failure ∧ t.nReadPos = s.nReadPos)

/-- `n` bytes are left, or the low 32 bits of `n` are more than what is left and not the
bits of a negative `int`. -/
def Narrows (s : CELLStream) (n : ℕ) : Prop :=
  n ≤ s.remaining ∨
    (s.remaining < ((n % 4294967296 : ℕ) : ℤ) ∧ n % 4294967296 < 2147483648)

/-- The bytes of an acceptable count may be narrowed to an `int`. -/
def Sane (s : CELLStream) : ReadCall → Prop
  | .read .. => True
  | .readArray w _ len .. => s.count ≤ len → s.Narrows (needed s.count w.bytes)
  | .readString _ => 0 < s.count → s.Narrows (needed s.count 1)

/-- Each call of the sequence is safe where it is made. -/
def SafeReads (s : CELLStream) : List ReadCall → Prop
  | [] => True
  | call :: calls => ∃ t, s.SafeCall call t ∧ t.SafeReads calls

/-- Each call of the sequence is sane where it is made. -/
def SaneReads (s : CELLStream) : List ReadCall → Prop
  | [] => True
  | call :: calls => s.Sane call ∧ ∀ reply t, s.readCall call = .ok (reply, t) →
    t.SaneReads calls

/-! ## One call -/

/-- A reader whose block is its message. -/
structure InMessage (s : CELLStream) (rest : List UInt8) : Prop where
  unread : s.Unread rest
  block : s.pBuff.length = s.nSize

theorem InMessage.remaining (hs : s.InMessage rest) : s.remaining = rest.length :=
  hs.unread.length.symm

theorem InMessage.logged (hs : s.InMessage rest) (l : LogCall) : (s.logged l).InMessage rest :=
  ⟨⟨hs.unread.block, hs.unread.nonneg, hs.unread.le, hs.unread.int, hs.unread.bytes⟩, hs.block⟩

/-- The count is read without moving. -/
theorem InMessage.peek (hs : s.InMessage rest) : ∃ r u, s.read 4 false = .ok (r, u) ∧
    (r.map ofLE).getD 0 = s.count ∧ u.InMessage rest ∧ u.nReadPos = s.nReadPos := by
  rw [count, hs.remaining]
  by_cases h4 : 4 ≤ rest.length
  · have hlen : (rest.take 4).length = 4 := by
      rw [List.length_take]
      omega
    have hunread : s.Unread (rest.take 4 ++ rest.drop 4) := by
      rw [List.take_append_drop]
      exact hs.unread
    have hload := (Block.load_eq_ok.mp hunread.load).2
    rw [hlen] at hload
    rw [if_pos (by omega), show (s.pBuff.drop s.nReadPos.toNat).take 4 = rest.take 4 from hload]
    exact ⟨_, s, hunread.read hlen false, rfl, hs, rfl⟩
  · rw [if_neg (by omega)]
    exact ⟨none, _, hs.unread.read_none (by decide) (by omega) false, rfl, hs.logged _, rfl⟩

theorem count_lt (s : CELLStream) : s.count < 4294967296 := by
  unfold count
  split
  · have hlt := ofLE_lt ((s.pBuff.drop s.nReadPos.toNat).take 4)
    have hle : ((s.pBuff.drop s.nReadPos.toNat).take 4).length ≤ 4 := List.length_take_le _ _
    calc ofLE ((s.pBuff.drop s.nReadPos.toNat).take 4)
        < 256 ^ ((s.pBuff.drop s.nReadPos.toNat).take 4).length := hlt
      _ ≤ 256 ^ 4 := Nat.pow_le_pow_right (by decide) hle
  · decide

/-- The test of `canRead` says whether the bytes are left. -/
theorem InMessage.narrows_iff (hs : s.InMessage rest) {n : ℕ} :
    s.Narrows n ↔ (int32 n ≤ s.remaining → n ≤ s.remaining) := by
  have hrem := hs.remaining
  have hlen := hs.unread.length
  have hint := hs.unread.int
  have hnonneg := hs.unread.nonneg
  exact (int32_le_imp_iff (by omega) (by omega)).symm

/-- The test both calls make once they have the count. -/
theorem InMessage.canRead_size (hs : s.InMessage rest) {n : ℕ} (hn : n < 18446744073709551612) :
    s.canRead (int32 (sizeTOf (n + 4))) = true ↔ int32 (n + 4 : ℕ) ≤ s.remaining := by
  rw [hs.unread.canRead, hs.remaining, sizeTOf_eq (by omega)]

/-- A count that passes the test was read from the message. -/
theorem InMessage.four_le (hs : s.InMessage rest) {w : ℕ}
    (h : int32 (needed s.count w) ≤ s.remaining) : 4 ≤ rest.length := by
  by_contra h4
  rw [hs.remaining, needed, count, hs.remaining, if_neg (by omega), Nat.zero_mul,
    int32_eq (by decide) (by decide)] at h
  omega

/-- The bytes behind the count, if there are enough. -/
theorem InMessage.take_ok (hs : s.InMessage rest) {n : ℕ} (hn : n + 4 ≤ rest.length) :
    ∃ bs, Block.load (s.pop 4).pBuff (s.pop 4).nReadPos n = .ok bs ∧ bs.length = n ∧
      ((s.pop 4).pop (int32 n)).InMessage (rest.drop (n + 4)) := by
  have hunread : s.Unread (rest.take 4 ++ ((rest.drop 4).take n ++ rest.drop (n + 4))) := by
    rw [Nat.add_comm n 4, ← List.drop_drop, List.take_append_drop, List.take_append_drop]
    exact hs.unread
  have hlen : ((rest.drop 4).take n).length = n := by
    rw [List.length_take, List.length_drop]
    omega
  have hpop := hunread.pop (n := 4) (by rw [List.length_take]; omega)
  rw [int32_eq (by decide) (by decide)] at hpop
  have hload := hpop.load
  rw [hlen] at hload
  exact ⟨_, hload, hlen, hpop.pop hlen, hs.block⟩

/-- A copy that goes beyond the message. -/
theorem InMessage.take_error (hs : s.InMessage rest) {n : ℕ} (h4 : 4 ≤ rest.length)
    (hn : rest.length < n + 4) :
    Block.load (s.pop 4).pBuff (s.pop 4).nReadPos n = .error .outOfBounds := by
  have hlen := hs.unread.length
  have hblock := hs.block
  have hint := hs.unread.int
  have hnonneg := hs.unread.nonneg
  rw [Block.load, if_neg]
  simp only [pop]
  rw [int32_eq (by omega) (by omega)]
  omega

/-- The call goes on to copy the bytes of the count in front of it. -/
def Accepts (s : CELLStream) : ReadCall → Prop
  | .read w _ => w.bytes ≤ s.remaining
  | .readArray w _ len .. => s.count ≤ len ∧ int32 (needed s.count w.bytes) ≤ s.remaining
  | .readString _ => 0 < s.count ∧ int32 (needed s.count 1) ≤ s.remaining

theorem InMessage.sane_iff (hs : s.InMessage rest) :
    s.Sane call ↔ (s.Accepts call → ¬s.Lacks call) := by
  cases call with
  | read w bOffset => simp [Sane, Accepts, Lacks]
  | readArray w pArr len hlen hArr =>
    simp only [Sane, Accepts, Lacks, hs.narrows_iff, not_lt, and_imp]
  | readString str => simp only [Sane, Accepts, Lacks, hs.narrows_iff, not_lt, and_imp]

/-- The bytes of the elements fit a `size_t`. -/
theorem count_mul_lt (s : CELLStream) (w : Width) : s.count * w.bytes < 18446744073709551612 := by
  have hw : w.bytes ≤ 8 := by cases w <;> decide
  have hcount := s.count_lt
  calc s.count * w.bytes ≤ s.count * 8 := Nat.mul_le_mul_left _ hw
    _ < 18446744073709551612 := by omega

/-- A call that does not go on to copy fails. -/
theorem InMessage.readCall_of_not_accepts (hs : s.InMessage rest) (h : ¬s.Accepts call) :
    ∃ t, s.readCall call = .ok (call.failure, t) ∧ t.InMessage rest ∧
      t.nReadPos = s.nReadPos := by
  cases call with
  | read w bOffset =>
    have hw : w.bytes ≤ 8 := by cases w <;> decide
    have hlt : rest.length < w.bytes := by
      rw [Accepts, hs.remaining] at h
      omega
    refine ⟨_, ?_, hs.logged .streamReadFailed, rfl⟩
    rw [readCall, hs.unread.read_none (by omega) hlt]
    rfl
  | readArray w pArr len hlen hArr =>
    obtain ⟨r, u, hread, hcount, hu, hpos⟩ := hs.peek
    have hmul := s.count_mul_lt w
    have hcond : ¬(s.count ≤ len ∧
        u.canRead (int32 (sizeTOf (s.count * w.bytes + 4))) = true) := by
      rwa [hu.canRead_size hmul, hu.remaining, ← hs.remaining]
    refine ⟨_, ?_, hu.logged .streamReadArrayFailed, hpos⟩
    simp only [readCall, readArray, hread, Fallible.ok_bind, hcount,
      sizeTOf_eq (show s.count * w.bytes < 18446744073709551616 by omega), hcond, if_false]
    rfl
  | readString str =>
    obtain ⟨r, u, hread, hcount, hu, hpos⟩ := hs.peek
    have hmul : s.count * 1 < 18446744073709551612 := s.count_mul_lt .one
    have hcond : ¬(0 < s.count ∧ u.canRead (int32 (sizeTOf (s.count * 1 + 4))) = true) := by
      rwa [hu.canRead_size hmul, hu.remaining, ← hs.remaining]
    rw [Nat.mul_one] at hcond
    refine ⟨_, ?_, hu, hpos⟩
    simp only [readCall, readString, hread, Fallible.ok_bind, hcount, hcond, if_false]
    rfl

/-- A call that goes on to copy returns exactly if the bytes are left. -/
theorem InMessage.readCall_of_accepts (hs : s.InMessage rest) (h : s.Accepts call) :
    (¬s.Lacks call → ∃ reply t rest', s.readCall call = .ok (reply, t) ∧ t.InMessage rest') ∧
      (s.Lacks call → s.readCall call = .error .outOfBounds) := by
  cases call with
  | read w bOffset =>
    refine ⟨fun _ => ?_, fun hl => absurd hl (not_lt.mpr h)⟩
    rw [Accepts, hs.remaining] at h
    have hlen : (rest.take w.bytes).length = w.bytes := by
      rw [List.length_take]
      omega
    have hunread : s.Unread (rest.take w.bytes ++ rest.drop w.bytes) := by
      rw [List.take_append_drop]
      exact hs.unread
    have hread := hunread.read hlen bOffset
    cases bOffset with
    | true => exact ⟨_, _, _, by rw [readCall, hread]; rfl, hunread.pop hlen, hs.block⟩
    | false => exact ⟨_, _, _, by rw [readCall, hread]; rfl, hs⟩
  | readArray w pArr len hlen hArr =>
    obtain ⟨r, u, hread, hcount, hu, hpos⟩ := hs.peek
    have h4 := hs.four_le h.2
    have hmul := s.count_mul_lt w
    have hcan : u.canRead (int32 (sizeTOf (s.count * w.bytes + 4))) = true := by
      rw [hu.canRead_size hmul, hu.remaining, ← hs.remaining]
      exact h.2
    rw [Lacks, hs.remaining, needed]
    simp only [readCall, readArray, hread, Fallible.ok_bind, hcount,
      sizeTOf_eq (show s.count * w.bytes < 18446744073709551616 by omega), h.1, hcan, and_self,
      if_true]
    constructor
    · intro hfits
      obtain ⟨bs, hload, hbs, ht⟩ := hu.take_ok (n := s.count * w.bytes) (by omega)
      have hroom : s.count * w.bytes ≤ len * w.bytes := Nat.mul_le_mul_right _ h.1
      have hstore := Block.store_eq pArr bs 0 (by omega)
      rw [Nat.cast_zero] at hstore
      rw [hload, Fallible.ok_bind, hstore]
      exact ⟨_, _, _, rfl, ht⟩
    · intro hlacks
      rw [hu.take_error h4 (by omega)]
      rfl
  | readString str =>
    obtain ⟨r, u, hread, hcount, hu, hpos⟩ := hs.peek
    have h4 := hs.four_le h.2
    have hmul : s.count * 1 < 18446744073709551612 := s.count_mul_lt .one
    have hcan : u.canRead (int32 (sizeTOf (s.count * 1 + 4))) = true := by
      rw [hu.canRead_size hmul, hu.remaining, ← hs.remaining]
      exact h.2
    rw [Nat.mul_one] at hcan
    rw [Lacks, hs.remaining, needed, Nat.mul_one]
    simp only [readCall, readString, hread, Fallible.ok_bind, hcount, h.1, hcan, and_self, if_true]
    constructor
    · intro hfits
      obtain ⟨bs, hload, hbs, ht⟩ := hu.take_ok (n := s.count) (by omega)
      rw [hload]
      exact ⟨_, _, _, rfl, ht⟩
    · intro hlacks
      rw [hu.take_error h4 (by omega)]
      rfl

/-- A call is safe exactly if it is sane, and then leaves the reader in its message. -/
theorem InMessage.safeCall_iff (hs : s.InMessage rest) :
    (∃ t, s.SafeCall call t) ↔ s.Sane call := by
  rw [hs.sane_iff]
  constructor
  · rintro ⟨t, reply, hcall, -⟩ haccepts hlacks
    rw [(hs.readCall_of_accepts haccepts).2 hlacks] at hcall
    simp at hcall
  · intro hsane
    by_cases haccepts : s.Accepts call
    · obtain ⟨reply, t, rest', hcall, ht⟩ :=
        (hs.readCall_of_accepts haccepts).1 (hsane haccepts)
      exact ⟨t, reply, hcall, ht.unread.nonneg, ht.unread.le,
        fun hlacks => absurd hlacks (hsane haccepts)⟩
    · obtain ⟨t, hcall, ht, hpos⟩ := hs.readCall_of_not_accepts haccepts
      exact ⟨t, _, hcall, ht.unread.nonneg, ht.unread.le, fun _ => ⟨rfl, hpos⟩⟩

/-- A call that returns leaves the reader in its message. -/
theorem InMessage.readCall (hs : s.InMessage rest) (h : s.readCall call = .ok (reply, t)) :
    ∃ rest', t.InMessage rest' := by
  by_cases haccepts : s.Accepts call
  · obtain ⟨hfits, hlacks⟩ := hs.readCall_of_accepts haccepts
    by_cases hl : s.Lacks call
    · rw [hlacks hl] at h
      simp at h
    · obtain ⟨reply', t', rest', hcall, ht⟩ := hfits hl
      obtain ⟨-, rfl⟩ := Prod.mk.inj (Except.ok.inj (hcall.symm.trans h))
      exact ⟨rest', ht⟩
  · obtain ⟨t', hcall, ht, -⟩ := hs.readCall_of_not_accepts haccepts
    obtain ⟨-, rfl⟩ := Prod.mk.inj (Except.ok.inj (hcall.symm.trans h))
    exact ⟨rest, ht⟩

theorem InMessage.ofMessage {bytes : List UInt8} (h : bytes.length < 2147483648) :
    (ofMessage bytes).InMessage bytes := by
  refine ⟨⟨Int.le_refl _, Int.le_refl 0, Int.natCast_nonneg _, ?_, ?_⟩, rfl⟩
  · simp only [CELLStream.ofMessage]
    omega
  · simp [CELLStream.ofMessage]

end CELLStream

/-- When reading hostile bytes is safe. Whatever the bytes of the message, a sequence of
calls is safe exactly when at each `ReadArray` and `ReadString` of it with an acceptable
count the bytes that the count stands for are left, or still more than what is left when
they are narrowed to an `int`. -/
theorem hostile_reads_safe_iff {bytes : List UInt8} (hbytes : bytes.length ≤ 65535)
    (calls : List ReadCall) :
    (CELLStream.ofMessage bytes).SafeReads calls ↔
      (CELLStream.ofMessage bytes).SaneReads calls := by
  have hall : ∀ (s : CELLStream) (rest : List UInt8), s.InMessage rest →
      (s.SafeReads calls ↔ s.SaneReads calls) := by
    induction calls with
    | nil => exact fun _ _ _ => Iff.rfl
    | cons call calls ih =>
      intro s rest hs
      constructor
      · rintro ⟨t, hsafe, hcalls⟩
        refine ⟨hs.safeCall_iff.mp ⟨t, hsafe⟩, fun reply u hu => ?_⟩
        obtain ⟨reply', hcall, -⟩ := hsafe
        obtain ⟨-, rfl⟩ := Prod.mk.inj (Except.ok.inj (hcall.symm.trans hu))
        obtain ⟨rest', ht⟩ := hs.readCall hcall
        exact (ih t rest' ht).mp hcalls
      · rintro ⟨hsane, hcalls⟩
        obtain ⟨t, hsafe⟩ := hs.safeCall_iff.mpr hsane
        obtain ⟨reply, hcall, hrest⟩ := hsafe
        obtain ⟨rest', ht⟩ := hs.readCall hcall
        exact ⟨t, ⟨reply, hcall, hrest⟩, (ih t rest' ht).mpr (hcalls reply t hcall)⟩
  exact hall _ bytes (.ofMessage (by omega))

/-- A string of 2^32 - 1 bytes in a message of four : 2^32 + 3 bytes are needed, and
narrowed to an `int` they are 3. -/
theorem readString_hostile : (CELLStream.ofMessage [255, 255, 255, 255]).readCall (.readString []) =
    .error .outOfBounds := by
  rfl

/-- Reading hostile bytes is not safe. -/
theorem not_hostile_reads_safe : ¬∀ (bytes : List UInt8) (calls : List ReadCall),
    bytes.length ≤ 65535 → (CELLStream.ofMessage bytes).SafeReads calls := by
  intro hall
  obtain ⟨t, ⟨reply, hcall, -⟩, -⟩ := hall [255, 255, 255, 255] [.readString []] (by decide)
  rw [readString_hostile] at hcall
  simp at hcall

/-- A string of two bytes. -/
theorem hostile_reads_safe_iff_string :
    (CELLStream.ofMessage [2, 0, 0, 0, 104, 105]).SafeReads [.readString []] := by
  refine (hostile_reads_safe_iff (by decide) _).mpr ⟨fun _ => Or.inl ?_, fun _ _ _ => trivial⟩
  decide

end CellNet
