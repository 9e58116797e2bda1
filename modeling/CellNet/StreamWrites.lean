import CellNet.Calls
import CellNet.Codec

/-!
# Writing with any length

The writing calls of a `CELLStream`, whatever their lengths. `WriteArray` computes the bytes
it needs as a `size_t` and passes them to `canWrite`, which takes an `int`, and a negative
length of `WriteString` becomes a count of more than 2^31 elements : a count that makes the
value of the `int` small, or negative, passes the test, and the copy leaves the block.

`AllOrNothing` is what a call should do, `NarrowsRoom` the condition that the narrowed
number of bytes says whether they fit, and `writes_all_or_nothing_iff` says that a sequence
of calls is all or nothing exactly when the condition holds at each of them.
-/

namespace CellNet

/-- A call of a writer. An array has the elements its caller says it has. -/
inductive WriteCall
  /-- `Write<T>` of a value with the bytes `bs`. -/
  | write (bs : List UInt8)
  /-- `WriteArray<T>`, `T` of `w` bytes. -/
  | writeArray (w : ℕ) (pData : List UInt8) (len : ℕ) (hw : w < 4294967296)
    (hlen : len < 4294967296) (hData : len * w ≤ pData.length)
  /-- `WriteString(str, len)`. -/
  | writeString (str : List UInt8) (len : ℤ) (hmin : -2147483648 ≤ len)
    (hmax : len < 2147483648) (hstr : len ≤ str.length)

namespace WriteCall

/-- The bytes the call needs. -/
def size : WriteCall → ℕ
  | write bs => bs.length
  | writeArray w _ len .. => len * w + 4
  | writeString _ len .. => uint32 len + 4

/-- The bytes the call is to append. -/
def bytes : WriteCall → List UInt8
  | write bs => bs
  | writeArray w pData len .. => toLE 4 len ++ pData.take (len * w)
  | writeString str len .. => toLE 4 (uint32 len) ++ str.take (uint32 len)

end WriteCall

namespace CELLStream

variable {s t : CELLStream} {cap : ℕ} {bs : List UInt8} {call : WriteCall}

/-- One call. -/
def writeCall (s : CELLStream) : WriteCall → Exec (Bool × CELLStream)
  | .write bs => s.write bs
  | .writeArray w pData len .. => s.writeArray w pData len
  | .writeString str len .. => s.writeString str len

/-- The bytes that are free behind the write position. -/
def room (s : CELLStream) : ℤ :=
  s.nSize - s.nWritePos

/-- The write position stays in the block. A call that returned true had room for its bytes
and appended them, one that returned false changed nothing of what was written. -/
structure AllOrNothing (s : CELLStream) (size : ℕ) (bytes : List UInt8) (ok : Bool)
    (t : CELLStream) : Prop where
  nSize : t.nSize = s.nSize
  block : t.pBuff.length = s.pBuff.length
  nonneg : 0 ≤ t.nWritePos
  le : t.nWritePos ≤ t.nSize
  done : ok = true → size ≤ s.room ∧ t.nWritePos = s.nWritePos + size ∧
    t.written = s.written ++ bytes
  refused : ok = false → t.nWritePos = s.nWritePos ∧ t.written = s.written

/-- There is room for `n` bytes, or the low 32 bits of `n` are more than the room and not
the bits of a negative `int`. -/
def NarrowsRoom (s : CELLStream) (n : ℕ) : Prop :=
  n ≤ s.room ∨ (s.room < ((n % 4294967296 : ℕ) : ℤ) ∧ n % 4294967296 < 2147483648)

/-! ## One call -/

theorem Writing.room_eq (hs : Writing cap s) : s.room = (cap - s.written.length : ℤ) := by
  rw [room, hs.size, hs.length_written]

theorem Writing.room_bounds (hs : Writing cap s) : 0 ≤ s.room ∧ s.room < 2147483648 := by
  have := hs.size
  have := hs.nonneg
  have := hs.le
  have := hs.int
  unfold room
  omega

theorem Writing.canWrite_iff (hs : Writing cap s) (n : ℤ) : s.canWrite n = true ↔ n ≤ s.room := by
  have := hs.room_bounds
  unfold room at this ⊢
  rw [canWrite, decide_eq_true_eq, int32_eq (by omega) (by omega)]

theorem Writing.narrowsRoom_iff (hs : Writing cap s) {n : ℕ} :
    s.NarrowsRoom n ↔ (int32 n ≤ s.room → n ≤ s.room) :=
  (int32_le_imp_iff hs.room_bounds.1 hs.room_bounds.2).symm

/-- A call that was refused. -/
theorem Writing.refused (hs : Writing cap s) (size : ℕ) (bytes : List UInt8) (l : LogCall) :
    s.AllOrNothing size bytes false (s.logged l) where
  nSize := rfl
  block := rfl
  nonneg := hs.nonneg
  le := hs.size ▸ hs.le
  done h := by simp at h
  refused _ := ⟨rfl, rfl⟩

/-- A call that appended its bytes. -/
theorem Writing.done (hs : Writing cap s) (ht : Writing cap t)
    (hwritten : t.written = s.written ++ bs) {size : ℕ} (hsize : bs.length = size) :
    s.AllOrNothing size bs true t where
  nSize := ht.size.trans hs.size.symm
  block := ht.block.trans hs.block.symm
  nonneg := ht.nonneg
  le := ht.size ▸ ht.le
  done _ := by
    have hlen := hs.length_written
    have hlen' := ht.length_written
    have hle := ht.le
    rw [hwritten, List.length_append] at hlen'
    refine ⟨?_, by omega, hwritten⟩
    rw [hs.room_eq]
    omega
  refused h := by simp at h

theorem AllOrNothing.writing {size : ℕ} {ok : Bool} (h : s.AllOrNothing size bs ok t)
    (hs : Writing cap s) : Writing cap t where
  size := h.nSize.trans hs.size
  block := h.block.trans hs.block
  nonneg := h.nonneg
  le := by rw [← hs.size, ← h.nSize]; exact h.le
  int := hs.int

theorem Writing.write_iff (hs : Writing cap s) :
    (∃ ok t, s.write bs = .ok (ok, t) ∧ s.AllOrNothing bs.length bs ok t) ↔
      s.NarrowsRoom bs.length := by
  rw [hs.narrowsRoom_iff]
  constructor
  · rintro ⟨ok, t, hwrite, hall⟩ hnarrow
    have hok := (write_flag hwrite).1
    rw [(hs.canWrite_iff _).mpr hnarrow] at hok
    exact (hall.done hok).1
  · intro hnarrow
    by_cases hcan : s.canWrite (int32 bs.length) = true
    · have hfits := hnarrow ((hs.canWrite_iff _).mp hcan)
      rw [hs.room_eq] at hfits
      obtain ⟨t, ht⟩ : ∃ t, s.write bs = .ok (true, t) := hs.write_of_room (by omega)
      obtain ⟨hwriting, hwritten⟩ := hs.write ht
      exact ⟨true, t, ht, hs.done hwriting hwritten rfl⟩
    · exact ⟨false, _, by rw [CELLStream.write, if_neg hcan]; rfl, hs.refused _ _ _⟩

/-- Only the elements are read from the array. -/
theorem writeArray_take {w len : ℕ} {pData : List UInt8} (hData : len * w ≤ pData.length)
    (hw : len * w < 18446744073709551616) :
    s.writeArray w pData len = s.writeArray w (pData.take (len * w)) len := by
  have hn : sizeTOf (w * len) = len * w := by
    rw [Nat.mul_comm, sizeTOf_eq hw]
  have htake : (pData.take (len * w)).length = len * w := by
    rw [List.length_take]
    omega
  have hload : Block.load pData 0 (len * w : ℕ) = .ok (pData.take (len * w)) := by
    simpa using Block.load_eq pData 0 (len * w) (by omega)
  have hload' : Block.load (pData.take (len * w)) 0 (len * w : ℕ) =
      .ok (pData.take (len * w)) := by
    have hself := Block.load_eq (pData.take (len * w)) 0 (len * w) (by omega)
    rwa [List.drop_zero, List.take_take, Nat.min_self, Nat.cast_zero] at hself
  simp only [writeArray, hn, hload, hload']

/-- A count whose bytes pass the test and do not fit. -/
theorem Writing.writeArray_overrun (hs : Writing cap s) {w len : ℕ} {pData : List UInt8}
    (hw : len * w + 4 < 18446744073709551616) (hnarrow : int32 (len * w + 4 : ℕ) ≤ s.room)
    (hlong : s.room < (len * w + 4 : ℕ)) (ok : Bool) (t : CELLStream) :
    s.writeArray w pData len ≠ .ok (ok, t) := by
  have hn : sizeTOf (w * len) = len * w := by
    rw [Nat.mul_comm, sizeTOf_eq (by omega)]
  have hcan : s.canWrite (int32 (sizeTOf (len * w + 4))) = true := by
    rw [hs.canWrite_iff, sizeTOf_eq hw]
    exact hnarrow
  intro h
  simp only [CELLStream.writeArray, hn, hcan, if_true] at h
  obtain ⟨⟨ok', u⟩, hcount, h⟩ := Fallible.bind_eq_ok.mp h
  obtain ⟨bs, hload, h⟩ := Fallible.bind_eq_ok.mp h
  obtain ⟨m, hm, -⟩ := Fallible.bind_eq_ok.mp h
  have hbs : bs.length = len * w := by
    obtain ⟨⟨-, -, hle⟩, rfl⟩ := Block.load_eq_ok.mp hload
    simp only [Int.toNat_zero, List.drop_zero, Int.toNat_natCast, List.length_take]
    omega
  obtain ⟨⟨-, hfits⟩, -⟩ := Block.store_eq_ok.mp hm
  have hroom := hs.room_eq
  have hlen := hs.length_written
  cases ok' with
  | true =>
    -- the count is written, and the elements do not fit behind it
    obtain ⟨hu, hwritten⟩ := hs.write hcount
    have hlen' := hu.length_written
    rw [hwritten, List.length_append, length_toLE] at hlen'
    dsimp only at hfits
    rw [hu.block] at hfits
    omega
  | false =>
    -- there is no room for the count, so the elements are more than 2^31 bytes
    obtain ⟨hfull, hu⟩ := write_flag hcount
    obtain rfl := hu rfl
    have hcount4 : ¬int32 (4 : ℕ) ≤ s.room := by
      rw [← hs.canWrite_iff]
      simpa using hfull.symm
    rw [int32_eq (by decide) (by decide)] at hcount4
    have hlarge : ¬((len * w + 4 : ℕ) : ℤ) < 2147483648 := fun hlt => by
      rw [int32_eq (by omega) hlt] at hnarrow
      omega
    have hblock := hs.block
    simp only [logged] at hfits
    omega

/-- A `WriteArray` whose test fails. -/
theorem writeArray_refused {w len : ℕ} {pData : List UInt8} (hw : len * w < 18446744073709551616)
    (hcan : ¬s.canWrite (int32 (sizeTOf (len * w + 4))) = true) :
    s.writeArray w pData len = .ok (false, s.logged .streamWriteArrayFailed) := by
  have hn : sizeTOf (w * len) = len * w := by
    rw [Nat.mul_comm, sizeTOf_eq hw]
  simp only [CELLStream.writeArray, hn, hcan]
  rfl

theorem Writing.writeArray_iff (hs : Writing cap s) (w : ℕ) (pData : List UInt8) (len : ℕ)
    (hw : len * w + 4 < 18446744073709551616)
    (hData : (len * w + 4 : ℕ) ≤ s.room → len * w ≤ pData.length) :
    (∃ ok t, s.writeArray w pData len = .ok (ok, t) ∧
      s.AllOrNothing (len * w + 4) (toLE 4 len ++ pData.take (len * w)) ok t) ↔
      s.NarrowsRoom (len * w + 4) := by
  rw [hs.narrowsRoom_iff]
  constructor
  · rintro ⟨ok, t, hwrite, -⟩ hnarrow
    by_contra hlong
    exact hs.writeArray_overrun hw hnarrow (not_le.mp hlong) ok t hwrite
  · intro hnarrow
    by_cases hcan : s.canWrite (int32 (sizeTOf (len * w + 4))) = true
    · rw [hs.canWrite_iff, sizeTOf_eq hw] at hcan
      have hfits := hnarrow hcan
      have hle := hData hfits
      rw [hs.room_eq] at hfits
      have htake : (pData.take (len * w)).length = len * w := by
        rw [List.length_take]
        omega
      obtain ⟨t, ht⟩ : ∃ t, s.writeArray w (pData.take (len * w)) len = .ok (true, t) :=
        hs.writeArray_of_room htake (by omega)
      obtain ⟨hwriting, hwritten⟩ := hs.writeArray htake (by omega) ht
      refine ⟨true, t, ?_, hs.done hwriting hwritten ?_⟩
      · rw [writeArray_take hle (by omega), ht]
      · rw [List.length_append, length_toLE, htake, Nat.add_comm]
    · exact ⟨false, _, writeArray_refused (by omega) hcan, hs.refused _ _ _⟩

/-- A call is all or nothing exactly if its bytes are narrowed to an `int` in the right
way. -/
theorem Writing.writeCall_iff (hs : Writing cap s) :
    (∃ ok t, s.writeCall call = .ok (ok, t) ∧ s.AllOrNothing call.size call.bytes ok t) ↔
      s.NarrowsRoom call.size := by
  cases call with
  | write bs => exact hs.write_iff
  | writeArray w pData len hw hlen hData =>
    refine hs.writeArray_iff w pData len ?_ fun _ => hData
    have hmul : len * w ≤ 4294967295 * 4294967295 := Nat.mul_le_mul (by omega) (by omega)
    omega
  | writeString str len hmin hmax hstr =>
    have hlen : uint32 len < 4294967296 := by
      unfold uint32
      omega
    have hiff := hs.writeArray_iff 1 str (uint32 len) (by omega) ?_
    · rwa [Nat.mul_one] at hiff
    · intro hfits
      have := hs.room_bounds
      unfold uint32 at hfits ⊢
      omega

end CELLStream

/-- When stream writes are all or nothing. Whatever the capacity and the position, each call
of a sequence is all or nothing exactly when for each of them the bytes it needs fit, or
are still more than the room when they are narrowed to an `int`. -/
theorem writes_all_or_nothing_iff {cap : ℕ} {s : CELLStream} (hs : CELLStream.Writing cap s)
    (calls : List WriteCall) :
    Calls.Safe CELLStream.writeCall
        (fun s call ok t => s.AllOrNothing call.size call.bytes ok t) s calls ↔
      Calls.Meets CELLStream.writeCall (fun s call => s.NarrowsRoom call.size) s calls :=
  Calls.safe_iff_meets (I := CELLStream.Writing cap) (fun _ _ hs => hs.writeCall_iff)
    (fun _ _ _ _ hs hall => hall.writing hs) calls hs

/-- A string with the length -1 and three free bytes : 2^32 + 3 bytes are needed, and narrowed
to an `int` they are 3. -/
theorem CELLStream.Writing.writeString_negative {cap : ℕ} {s : CELLStream} (hs : Writing cap s)
    (hroom : s.room = 3) (ok : Bool) (t : CELLStream) : s.writeString [] (-1) ≠ .ok (ok, t) :=
  hs.writeArray_overrun (by decide) (by rw [hroom]; decide) (by rw [hroom]; decide) ok t

/-- The calls on a new write stream are not all or nothing. -/
theorem not_writes_all_or_nothing : ¬∀ (nSize : ℤ) (mem : ℕ → UInt8) (s : CELLStream)
    (calls : List WriteCall), 2 ≤ nSize → nSize < 2147483648 →
    CELLStream.newWrite nSize mem = .ok s → Calls.Safe CELLStream.writeCall
      (fun s call ok t => s.AllOrNothing call.size call.bytes ok t) s calls := by
  intro hall
  obtain ⟨s, hnew, hs, hwritten, -⟩ :=
    CELLStream.exists_newWrite 5 (fun _ => 0) (by decide) (by decide)
  obtain ⟨ok, t, hcall, -⟩ := hall 5 _ s
    [.writeString [] (-1) (by decide) (by decide) (by decide)] (by decide) (by decide) hnew
  have hroom : s.room = 3 := by
    rw [hs.room_eq, hwritten]
    rfl
  exact hs.writeString_negative hroom ok t hcall

/-- A scalar on a new write stream, and a string that does not fit behind it. -/
theorem writes_all_or_nothing_short : ∃ s, CELLStream.newWrite 8 (fun _ => 0) = .ok s ∧
    Calls.Safe CELLStream.writeCall
      (fun s call ok t => s.AllOrNothing call.size call.bytes ok t) s
      [.write [1, 2], .writeString [104, 105] 2 (by decide) (by decide) (by decide)] := by
  obtain ⟨s, hnew, hs, hwritten, -⟩ :=
    CELLStream.exists_newWrite 8 (fun _ => 0) (by decide) (by decide)
  refine ⟨s, hnew, (writes_all_or_nothing_iff hs _).mpr ⟨Or.inl ?_, fun ok t hcall =>
    ⟨Or.inr ?_, fun _ _ _ => trivial⟩⟩⟩
  · rw [hs.room_eq, hwritten]
    decide
  · obtain ⟨u, hu⟩ : ∃ u, s.write [1, 2] = .ok (true, u) :=
      hs.write_of_room (by rw [hwritten]; decide)
    obtain ⟨hwriting, hwritten'⟩ := hs.write hu
    obtain ⟨-, rfl⟩ := Prod.mk.inj (Except.ok.inj (hu.symm.trans hcall))
    rw [hwriting.room_eq, hwritten', hwritten]
    decide

end CellNet
