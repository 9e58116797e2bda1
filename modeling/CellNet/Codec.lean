import CellNet.Client
import CellNet.Stream

/-!
# Messages written and read through streams

A message of a `CELLWriteStream` is a length, a command and fields, each a scalar or an
array behind its count; `encode` is the bytes of the fields. The writer's side is followed
through `written`, the bytes in front of the write position, and the reader's through
`unread`, the bytes of the message behind the read position : a write that returns true
appends the bytes of its field (`writeField_of_true`), and the matching read takes them
off again (`Unread.readField`).

* `stream_round_trip` : what is written is read back, field by field.
* `finished_message_one_frame_iff` : a finished message is one frame for the receiver
  exactly when its length fits the 16 bits of the header.
-/

namespace CellNet

/-! ## Fields -/

/-- The widths of a scalar. -/
inductive Width
  | one
  | two
  | four
  | eight
  deriving DecidableEq, Repr

/-- `sizeof`. -/
def Width.bytes : Width → ℕ
  | one => 1
  | two => 2
  | four => 4
  | eight => 8

/-- A field of a message : a scalar, or an array, whose count is a `uint32_t`. A scalar is
its bytes in memory. -/
inductive Field
  | scalar (w : Width) (v : Vector UInt8 w.bytes)
  | array (w : Width) (vs : List (Vector UInt8 w.bytes)) (hlen : vs.length < 4294967296)

/-- The bytes of the elements of an array. -/
def elements {w : ℕ} (vs : List (Vector UInt8 w)) : List UInt8 :=
  vs.flatMap Vector.toList

@[simp] theorem length_elements {w : ℕ} (vs : List (Vector UInt8 w)) :
    (elements vs).length = vs.length * w := by
  induction vs with
  | nil => simp [elements]
  | cons v vs ih =>
    rw [elements, List.flatMap_cons, List.length_append, ← elements, ih, Vector.length_toList,
      List.length_cons, Nat.succ_mul, Nat.add_comm]

/-- The bytes of a field on the wire. -/
def Field.encode : Field → List UInt8
  | scalar _ v => v.toList
  | array _ vs _ => toLE 4 vs.length ++ elements vs

/-- The bytes of fields on the wire. -/
def encode (fields : List Field) : List UInt8 :=
  fields.flatMap Field.encode

@[simp] theorem encode_nil : encode [] = [] :=
  rfl

@[simp] theorem encode_cons (f : Field) (fields : List Field) :
    encode (f :: fields) = f.encode ++ encode fields :=
  rfl

namespace CELLStream

variable {s t : CELLStream} {cap : ℕ} {bs rest : List UInt8} {f : Field} {fields : List Field}

/-! ## Writing -/

/-- `Write` or `WriteArray` of a field. -/
def writeField (s : CELLStream) : Field → Exec (Bool × CELLStream)
  | .scalar _ v => s.write v.toList
  | .array w vs _ => s.writeArray w.bytes (elements vs) vs.length

/-- One write for each field, and whether all of them returned true. -/
def writeFields (s : CELLStream) : List Field → Exec (Bool × CELLStream)
  | [] => return (true, s)
  | f :: fields => do
    let (ok, s) ← s.writeField f
    let (oks, s) ← s.writeFields fields
    return (ok && oks, s)

/-- A writer with a block of `cap` bytes, in which its write position is. -/
structure Writing (cap : ℕ) (s : CELLStream) : Prop where
  size : s.nSize = cap
  block : s.pBuff.length = cap
  nonneg : 0 ≤ s.nWritePos
  le : s.nWritePos ≤ cap
  int : cap < 2147483648

/-- The bytes in front of the write position. -/
def written (s : CELLStream) : List UInt8 :=
  s.pBuff.take s.nWritePos.toNat

theorem Writing.length_written (hs : Writing cap s) : (s.written.length : ℤ) = s.nWritePos := by
  have := hs.block
  have := hs.nonneg
  have := hs.le
  rw [written, List.length_take]
  omega

/-- Bytes stored at the write position, which is then moved behind them. -/
theorem Writing.stored (hs : Writing cap s) {m : List UInt8}
    (hm : Block.store s.pBuff s.nWritePos bs = .ok m) :
    Writing cap ({ s with pBuff := m }.push (int32 bs.length)) ∧
      written ({ s with pBuff := m }.push (int32 bs.length)) = s.written ++ bs := by
  obtain ⟨hsize, hblock, hnonneg, hle, hint⟩ := hs
  obtain ⟨⟨-, hroom⟩, rfl⟩ := Block.store_eq_ok.mp hm
  obtain ⟨p, hp⟩ := Int.eq_ofNat_of_zero_le hnonneg
  have hn : int32 (bs.length : ℤ) = bs.length := int32_eq (by omega) (by omega)
  have hpos : int32 ((p : ℤ) + bs.length) = (p + bs.length : ℕ) := by
    rw [int32_eq (by omega) (by omega), Nat.cast_add]
  have hlen : (s.pBuff.take p).length = p := by
    rw [List.length_take]
    omega
  simp only [push, written, hp, hn, hpos, Int.toNat_natCast]
  refine ⟨⟨hsize, ?_, by simp only; omega, by simp only; omega, hint⟩, ?_⟩
  · simp only [List.length_append, List.length_take, List.length_drop]
    omega
  · rw [List.take_left' (by rw [List.length_append, hlen])]

/-- A `Write` that returns true appends the bytes. -/
theorem Writing.write (hs : Writing cap s) (h : s.write bs = .ok (true, t)) :
    Writing cap t ∧ t.written = s.written ++ bs := by
  unfold CELLStream.write at h
  split at h
  · obtain ⟨m, hm, h⟩ := Fallible.bind_eq_ok.mp h
    simp only [Fallible.pure_eq, Except.ok.injEq, Prod.mk.injEq, true_and] at h
    exact h ▸ hs.stored hm
  · simp at h

/-- `Write` returns whether there is room. -/
theorem write_flag {ok : Bool} (h : s.write bs = .ok (ok, t)) :
    ok = s.canWrite (int32 bs.length) ∧ (ok = false → t = s.logged .streamWriteFailed) := by
  unfold CELLStream.write at h
  split at h
  · rename_i hroom
    obtain ⟨m, -, h⟩ := Fallible.bind_eq_ok.mp h
    obtain ⟨rfl, -⟩ := Prod.mk.inj (Except.ok.inj h)
    exact ⟨hroom.symm, by simp⟩
  · rename_i hroom
    obtain ⟨rfl, rfl⟩ := Prod.mk.inj (Except.ok.inj h)
    exact ⟨(Bool.eq_false_iff.mpr hroom).symm, fun _ => rfl⟩

/-- A `WriteArray` that returns true appends the count and the elements. -/
theorem Writing.writeArray (hs : Writing cap s) {w len : ℕ} (hlen : bs.length = len * w)
    (hw : len * w < 18446744073709551616) (h : s.writeArray w bs len = .ok (true, t)) :
    Writing cap t ∧ t.written = s.written ++ (toLE 4 len ++ bs) := by
  have hn : sizeTOf (w * len) = bs.length := by
    rw [Nat.mul_comm, sizeTOf_eq hw, hlen]
  simp only [CELLStream.writeArray, hn] at h
  split at h
  · rename_i hroom
    obtain ⟨⟨ok, u⟩, hcount, h⟩ := Fallible.bind_eq_ok.mp h
    have hload : Block.load bs 0 bs.length = .ok bs := by
      simpa using Block.load_eq bs 0 bs.length (by omega)
    rw [hload, Fallible.ok_bind] at h
    obtain ⟨m, hm, h⟩ := Fallible.bind_eq_ok.mp h
    simp only [Fallible.pure_eq, Except.ok.injEq, Prod.mk.injEq, true_and] at h
    subst h
    cases ok with
    | true =>
      obtain ⟨hu, hwritten⟩ := hs.write hcount
      obtain ⟨ht, hwritten'⟩ := hu.stored hm
      exact ⟨ht, by rw [hwritten', hwritten, List.append_assoc]⟩
    | false =>
      -- Then the elements and the count fit, so the count fits.
      obtain ⟨hfull, hu⟩ := write_flag hcount
      obtain rfl := hu rfl
      obtain ⟨⟨-, hfits⟩, -⟩ := Block.store_eq_ok.mp hm
      obtain ⟨hsize, hblock, hnonneg, hle, hint⟩ := hs
      simp only [logged] at hfits
      simp only [canWrite, decide_eq_true_eq, length_toLE] at hroom hfull
      replace hfull := of_decide_eq_false hfull.symm
      rw [int32_eq (by omega) (by omega)] at hfull
      rw [int32_eq (x := s.nSize - s.nWritePos) (by omega) (by omega)] at hfull hroom
      rw [sizeTOf_eq (by omega), int32_eq (by omega) (by omega)] at hroom
      omega
  · simp at h

theorem Field.elements_lt {w : Width} {vs : List (Vector UInt8 w.bytes)}
    (hlen : vs.length < 4294967296) : vs.length * w.bytes < 18446744073709551616 := by
  have hw : w.bytes ≤ 8 := by cases w <;> decide
  calc vs.length * w.bytes ≤ vs.length * 8 := Nat.mul_le_mul_left _ hw
    _ < 18446744073709551616 := by omega

/-- A write of a field that returns true appends the bytes of the field. -/
theorem Writing.writeField (hs : Writing cap s) (h : s.writeField f = .ok (true, t)) :
    Writing cap t ∧ t.written = s.written ++ f.encode := by
  cases f with
  | scalar w v => exact hs.write h
  | array w vs hlen => exact hs.writeArray (length_elements vs) (Field.elements_lt hlen) h

/-- The first of some writes that all returned true. -/
theorem writeFields_cons (h : s.writeFields (f :: fields) = .ok (true, t)) :
    ∃ u, s.writeField f = .ok (true, u) ∧ u.writeFields fields = .ok (true, t) := by
  obtain ⟨⟨ok, u⟩, hf, h⟩ := Fallible.bind_eq_ok.mp h
  obtain ⟨⟨oks, v⟩, hfs, h⟩ := Fallible.bind_eq_ok.mp h
  simp only [Fallible.pure_eq, Except.ok.injEq, Prod.mk.injEq, Bool.and_eq_true] at h
  obtain ⟨⟨rfl, rfl⟩, rfl⟩ := h
  exact ⟨u, hf, hfs⟩

theorem Writing.writeFields (hs : Writing cap s) (h : s.writeFields fields = .ok (true, t)) :
    Writing cap t ∧ t.written = s.written ++ encode fields := by
  induction fields generalizing s with
  | nil =>
    simp only [CELLStream.writeFields, Fallible.pure_eq, Except.ok.injEq, Prod.mk.injEq,
      true_and] at h
    exact ⟨h ▸ hs, by rw [h, encode_nil, List.append_nil]⟩
  | cons f fields ih =>
    obtain ⟨u, hf, hfs⟩ := writeFields_cons h
    obtain ⟨hu, hwritten⟩ := hs.writeField hf
    obtain ⟨hv, hwritten'⟩ := ih hu hfs
    refine ⟨hv, ?_⟩
    rw [hwritten', hwritten, encode_cons, List.append_assoc]

/-- A new write stream, and the command in it. -/
theorem Writing.new {nSize : ℤ} {mem : ℕ → UInt8} {cmd : ℕ} (hmin : -2147483648 ≤ nSize)
    (hmax : nSize < 2147483648) (hnew : newWrite nSize mem = .ok s)
    (hroom : s.canWrite 2 = true) (hset : s.setNetCmd cmd = .ok t) :
    Writing nSize.toNat t ∧ t.written = toLE 2 0 ++ toLE 2 cmd := by
  have h2 : int32 2 = 2 := int32_eq (by decide) (by decide)
  obtain ⟨⟨ok, u⟩, hu, h⟩ := Fallible.bind_eq_ok.mp hnew
  obtain rfl : u = s := by simpa using h
  obtain ⟨⟨ok', v⟩, hv, h⟩ := Fallible.bind_eq_ok.mp hset
  obtain rfl : v = t := by simpa using h
  obtain ⟨hok, hlog⟩ := write_flag hu
  obtain ⟨hok', -⟩ := write_flag hv
  rw [length_toLE, Nat.cast_ofNat, h2] at hok hok'
  -- Without room for the length there is none for the command.
  have hlength : ok = true := by
    by_contra hfalse
    rw [hlog (by simpa using hfalse)] at hroom
    exact hfalse (hok.trans hroom)
  rw [hlength] at hu hok
  rw [hok', hroom] at hv
  have hsize : 2 ≤ nSize := by
    have := of_decide_eq_true hok.symm
    simp only [sub_zero] at this
    rwa [int32_eq hmin hmax] at this
  have hstart : Writing nSize.toNat ⟨(List.range nSize.toNat).map mem, nSize, 0, 0, []⟩ :=
    ⟨by simp only; omega, by simp, Int.le_refl 0, by simp, by omega⟩
  obtain ⟨hwriting, hwritten⟩ := hstart.write hu
  obtain ⟨hwriting', hwritten'⟩ := hwriting.write hv
  exact ⟨hwriting', by rw [hwritten', hwritten]; rfl⟩

/-- A `Write` with room for the bytes returns true. -/
theorem Writing.write_of_room (hs : Writing cap s) (hroom : s.written.length + bs.length ≤ cap) :
    ∃ t, s.write bs = .ok (true, t) := by
  have hlen := hs.length_written
  obtain ⟨hsize, hblock, hnonneg, hle, hint⟩ := hs
  have hcan : s.canWrite (int32 bs.length) = true := by
    apply decide_eq_true
    rw [int32_eq (by omega) (by omega), int32_eq (by omega) (by omega)]
    omega
  obtain ⟨m, hm⟩ : ∃ m, Block.store s.pBuff s.nWritePos bs = .ok m :=
    ⟨_, Block.store_eq_ok.mpr ⟨⟨hnonneg, by omega⟩, rfl⟩⟩
  exact ⟨_, by rw [CELLStream.write, if_pos hcan, hm]; rfl⟩

/-- A `WriteArray` with room for the count and the elements returns true. -/
theorem Writing.writeArray_of_room (hs : Writing cap s) {w len : ℕ} (hbs : bs.length = len * w)
    (hroom : s.written.length + (4 + bs.length) ≤ cap) :
    ∃ t, s.writeArray w bs len = .ok (true, t) := by
  have hlen := hs.length_written
  have hint := hs.int
  have hnonneg := hs.nonneg
  have hn : sizeTOf (w * len) = bs.length := by
    rw [Nat.mul_comm, ← hbs, sizeTOf_eq (by omega)]
  have hcan : s.canWrite (int32 (sizeTOf (bs.length + 4))) = true := by
    apply decide_eq_true
    rw [sizeTOf_eq (by omega), hs.size, int32_eq (by omega) (by omega),
      int32_eq (by omega) (by omega)]
    omega
  have hload : Block.load bs 0 bs.length = .ok bs := by
    simpa using Block.load_eq bs 0 bs.length (by omega)
  obtain ⟨u, hu⟩ : ∃ u, s.write (toLE 4 len) = .ok (true, u) :=
    hs.write_of_room (by rw [length_toLE]; omega)
  obtain ⟨hwriting, hwritten⟩ := hs.write hu
  have hlen' := hwriting.length_written
  rw [hwritten, List.length_append, length_toLE] at hlen'
  obtain ⟨m, hm⟩ : ∃ m, Block.store u.pBuff u.nWritePos bs = .ok m :=
    ⟨_, Block.store_eq_ok.mpr ⟨⟨hwriting.nonneg, by rw [hwriting.block]; omega⟩, rfl⟩⟩
  refine ⟨{ u with pBuff := m }.push (int32 bs.length), ?_⟩
  simp only [CELLStream.writeArray, hn, hcan, if_true, hu, Fallible.ok_bind, hload, hm]
  rfl

theorem Writing.writeFields_of_room (hs : Writing cap s)
    (hroom : s.written.length + (encode fields).length ≤ cap) :
    ∃ t, s.writeFields fields = .ok (true, t) := by
  induction fields generalizing s with
  | nil => exact ⟨s, rfl⟩
  | cons f fields ih =>
    rw [encode_cons, List.length_append] at hroom
    have hf : ∃ u, s.writeField f = .ok (true, u) := by
      cases f with
      | scalar w v =>
        rw [Field.encode] at hroom
        exact hs.write_of_room (by omega)
      | array w vs hlen =>
        rw [Field.encode, List.length_append, length_toLE] at hroom
        exact hs.writeArray_of_room (length_elements vs) (by omega)
    obtain ⟨u, hu⟩ := hf
    obtain ⟨hwriting, hwritten⟩ := hs.writeField hu
    obtain ⟨t, ht⟩ := ih hwriting (by rw [hwritten, List.length_append]; omega)
    refine ⟨t, ?_⟩
    simp only [CELLStream.writeFields, hu, Fallible.ok_bind, ht]
    rfl

/-- A `Write` that returns true logs nothing. -/
theorem write_log (h : s.write bs = .ok (true, t)) : t.log = s.log := by
  unfold CELLStream.write at h
  split at h
  · obtain ⟨m, -, h⟩ := Fallible.bind_eq_ok.mp h
    obtain ⟨-, rfl⟩ := Prod.mk.inj (Except.ok.inj h)
    rfl
  · simp at h

/-- With room for the bytes of a field nothing is logged. -/
theorem Writing.writeField_log (hs : Writing cap s)
    (hroom : s.written.length + f.encode.length ≤ cap) (h : s.writeField f = .ok (true, t)) :
    t.log = s.log := by
  cases f with
  | scalar w v => exact write_log h
  | array w vs hlen =>
    simp only [Field.encode, List.length_append, length_toLE] at hroom
    obtain ⟨u, hcount⟩ : ∃ u, s.write (toLE 4 vs.length) = .ok (true, u) :=
      hs.write_of_room (by rw [length_toLE]; omega)
    rw [CELLStream.writeField] at h
    unfold CELLStream.writeArray at h
    simp only [hcount, Fallible.ok_bind] at h
    split at h
    · obtain ⟨xs, -, h⟩ := Fallible.bind_eq_ok.mp h
      obtain ⟨m, -, h⟩ := Fallible.bind_eq_ok.mp h
      obtain ⟨-, rfl⟩ := Prod.mk.inj (Except.ok.inj h)
      have hlog := write_log hcount
      exact hlog
    · simp at h

theorem Writing.writeFields_log (hs : Writing cap s)
    (hroom : s.written.length + (encode fields).length ≤ cap)
    (h : s.writeFields fields = .ok (true, t)) : t.log = s.log := by
  induction fields generalizing s with
  | nil =>
    obtain ⟨-, rfl⟩ := Prod.mk.inj (Except.ok.inj h)
    rfl
  | cons f fields ih =>
    rw [encode_cons, List.length_append] at hroom
    obtain ⟨u, hf, hfs⟩ := writeFields_cons h
    obtain ⟨hu, hwritten⟩ := hs.writeField hf
    rw [ih hu (by rw [hwritten, List.length_append]; omega) hfs]
    exact hs.writeField_log (by omega) hf

/-- A new write stream with room for the length of its message, which is the first thing
written. -/
theorem exists_newWrite (nSize : ℤ) (mem : ℕ → UInt8) (hmin : 2 ≤ nSize)
    (hmax : nSize < 2147483648) : ∃ w₀, newWrite nSize mem = .ok w₀ ∧ Writing nSize.toNat w₀ ∧
      w₀.written = toLE 2 0 ∧ w₀.log = [] := by
  have hstart : Writing nSize.toNat ⟨(List.range nSize.toNat).map mem, nSize, 0, 0, []⟩ :=
    ⟨by simp only; omega, by simp, Int.le_refl 0, by simp, by omega⟩
  obtain ⟨w₀, hw₀⟩ : ∃ w₀, CELLStream.write ⟨(List.range nSize.toNat).map mem, nSize, 0, 0, []⟩
      (toLE 2 0) = .ok (true, w₀) := by
    apply hstart.write_of_room
    simp only [written, length_toLE, Int.toNat_zero, List.take_zero, List.length_nil]
    omega
  obtain ⟨hwriting₀, hwritten₀⟩ := hstart.write hw₀
  refine ⟨w₀, ?_, hwriting₀, ?_, write_log hw₀⟩
  · rw [newWrite, hw₀]
    rfl
  · rw [hwritten₀]
    rfl

/-- A write stream with room for a message. -/
theorem exists_written (nSize : ℤ) (mem : ℕ → UInt8) (cmd : ℕ) (fields : List Field)
    (hroom : 4 + (encode fields).length ≤ nSize) (hmax : nSize < 2147483648) :
    ∃ w₀ w₁ w₂, newWrite nSize mem = .ok w₀ ∧ w₀.canWrite 2 = true ∧
      w₀.setNetCmd cmd = .ok w₁ ∧ w₁.writeFields fields = .ok (true, w₂) ∧ w₂.log = [] := by
  obtain ⟨w₀, hw₀, hwriting₀, hwritten₀, hlog₀⟩ := exists_newWrite nSize mem (by omega) hmax
  have hlen₀ : w₀.written.length = 2 := by rw [hwritten₀]; rfl
  have hpos := hwriting₀.length_written
  obtain ⟨w₁, hw₁⟩ : ∃ w₁, w₀.write (toLE 2 cmd) = .ok (true, w₁) :=
    hwriting₀.write_of_room (by rw [length_toLE]; omega)
  obtain ⟨hwriting₁, hwritten₁⟩ := hwriting₀.write hw₁
  have hlen₁ : w₁.written.length = 4 := by rw [hwritten₁, List.length_append, hlen₀, length_toLE]
  obtain ⟨w₂, hw₂⟩ : ∃ w₂, w₁.writeFields fields = .ok (true, w₂) :=
    hwriting₁.writeFields_of_room (by omega)
  refine ⟨w₀, w₁, w₂, hw₀, ?_, ?_, hw₂, ?_⟩
  · apply decide_eq_true
    rw [hwriting₀.size, int32_eq (by omega) (by omega)]
    omega
  · rw [setNetCmd, hw₁]
    rfl
  · rw [hwriting₁.writeFields_log (by omega) hw₂, write_log hw₁, hlog₀]

/-- `finsh` puts the length, as far as it fits, in the first two bytes. -/
theorem Writing.finsh (hs : Writing cap s) (h2 : 2 ≤ s.nWritePos) : ∃ t, s.finsh = .ok t ∧
    Writing cap t ∧ t.written = toLE 2 (s.written.length % 65536) ++ s.written.drop 2 ∧
    t.length = s.length ∧ t.log = s.log := by
  have hlen := hs.length_written
  obtain ⟨hsize, hblock, hnonneg, hle, hint⟩ := hs
  obtain ⟨n, hn⟩ : ∃ n, (s.nWritePos % 65536).toNat = n := ⟨_, rfl⟩
  have hroom : (s.setWritePos 0).canWrite (int32 2) = true := by
    apply decide_eq_true
    simp only [setWritePos, sub_zero, hsize]
    rw [int32_eq (by decide) (by decide), int32_eq (by omega) (by omega)]
    omega
  have hstore : Block.store s.pBuff 0 (toLE 2 n) = .ok (toLE 2 n ++ s.pBuff.drop 2) := by
    simpa using Block.store_eq s.pBuff (toLE 2 n) 0 (by rw [length_toLE]; omega)
  refine ⟨{ s with pBuff := toLE 2 n ++ s.pBuff.drop 2 }, ?_,
    ⟨hsize, ?_, hnonneg, hle, hint⟩, ?_, rfl, rfl⟩
  · have hwrite : (s.setWritePos 0).write (toLE 2 n) = .ok (true,
        { s.setWritePos 0 with pBuff := toLE 2 n ++ s.pBuff.drop 2 }.push (int32 2)) := by
      rw [CELLStream.write, length_toLE, Nat.cast_ofNat, if_pos hroom]
      simp only [setWritePos, hstore]
      rfl
    simp only [CELLStream.finsh, length, hn, hwrite]
    rfl
  · rw [List.length_append, length_toLE, List.length_drop]
    omega
  · have hmod : s.written.length % 65536 = n := by omega
    rw [hmod]
    simp only [written]
    rw [List.take_append, length_toLE, List.drop_take,
      List.take_of_length_le (by rw [length_toLE]; omega)]

/-! ## Reading -/

/-- A reader with the bytes `rest` of its message unread. -/
structure Unread (s : CELLStream) (rest : List UInt8) : Prop where
  block : s.nSize ≤ s.pBuff.length
  nonneg : 0 ≤ s.nReadPos
  le : s.nReadPos ≤ s.nSize
  int : s.nSize < 2147483648
  bytes : (s.pBuff.take s.nSize.toNat).drop s.nReadPos.toNat = rest

theorem Unread.length (hs : s.Unread rest) : (rest.length : ℤ) = s.nSize - s.nReadPos := by
  obtain ⟨hblock, hnonneg, hle, hint, rfl⟩ := hs
  rw [List.length_drop, List.length_take]
  omega

theorem Unread.canRead (hs : s.Unread rest) (n : ℤ) :
    s.canRead n = true ↔ n ≤ rest.length := by
  have := hs.length
  have := hs.nonneg
  have := hs.le
  have := hs.int
  rw [CELLStream.canRead, decide_eq_true_eq, int32_eq (by omega) (by omega), hs.length]

/-- The next bytes of the message. -/
theorem Unread.load (hs : s.Unread (bs ++ rest)) :
    Block.load s.pBuff s.nReadPos bs.length = .ok bs := by
  have hlen := hs.length
  obtain ⟨hblock, hnonneg, hle, hint, hbytes⟩ := hs
  rw [List.length_append] at hlen
  refine Block.load_eq_ok.mpr ⟨⟨hnonneg, by omega, by omega⟩, ?_⟩
  have htake := congrArg (List.take bs.length) hbytes
  rw [List.take_left, List.drop_take, List.take_take] at htake
  rwa [Int.toNat_natCast, ← Nat.min_eq_left (a := bs.length)
    (b := s.nSize.toNat - s.nReadPos.toNat) (by omega)]

theorem Unread.pop (hs : s.Unread (bs ++ rest)) {n : ℕ} (hbs : bs.length = n) :
    (s.pop (int32 n)).Unread rest := by
  subst hbs
  have hlen := hs.length
  obtain ⟨hblock, hnonneg, hle, hint, hbytes⟩ := hs
  rw [List.length_append] at hlen
  have hn : int32 (bs.length : ℤ) = bs.length := int32_eq (by omega) (by omega)
  have hpos : int32 (s.nReadPos + bs.length) = s.nReadPos + bs.length :=
    int32_eq (by omega) (by omega)
  rw [CELLStream.pop, hn, hpos]
  refine ⟨hblock, by simp only; omega, by simp only; omega, hint, ?_⟩
  have hdrop := congrArg (List.drop bs.length) hbytes
  rw [List.drop_left, List.drop_drop] at hdrop
  simp only
  rwa [show (s.nReadPos + bs.length).toNat = s.nReadPos.toNat + bs.length by omega]

theorem Unread.popCount {n : ℕ} (hs : s.Unread (toLE 4 n ++ rest)) : (s.pop 4).Unread rest := by
  have h := hs.pop (length_toLE 4 n)
  rwa [int32_eq (by decide) (by decide)] at h

/-- `Read<T>` with the bytes of a `T` unread. -/
theorem Unread.read (hs : s.Unread (bs ++ rest)) {w : ℕ} (hbs : bs.length = w) (bOffset : Bool) :
    s.read w bOffset = .ok (some bs, if bOffset then s.pop (int32 w) else s) := by
  subst hbs
  have hlen := hs.length
  have hle := hs.le
  have hnonneg := hs.nonneg
  have hint := hs.int
  rw [List.length_append] at hlen
  have hn : int32 (bs.length : ℤ) = bs.length := int32_eq (by omega) (by omega)
  have hroom : s.canRead (int32 bs.length) = true := by
    rw [hs.canRead, hn, List.length_append]
    omega
  rw [CELLStream.read, if_pos hroom, hs.load]
  rfl

/-- `Read<T>` with less than the bytes of a `T` unread. -/
theorem Unread.read_none (hs : s.Unread rest) {w : ℕ} (hw : w < 2147483648)
    (hlt : rest.length < w) (bOffset : Bool) :
    s.read w bOffset = .ok (none, s.logged .streamReadFailed) := by
  have hroom : ¬s.canRead (int32 w) = true := by
    rw [hs.canRead, int32_eq (by omega) (by omega)]
    omega
  rw [CELLStream.read, if_neg hroom]
  rfl

/-- `ReadArray` with a count and the elements unread, into a block with room for them. -/
theorem Unread.readArray {n w len : ℕ} {pArr : List UInt8} (hn : n < 4294967296)
    (hs : s.Unread (toLE 4 n ++ (bs ++ rest))) (hbs : bs.length = n * w) (hlen : n ≤ len)
    (hArr : bs.length ≤ pArr.length) : s.readArray w pArr len =
      .ok (n, bs ++ pArr.drop bs.length, (s.pop 4).pop (int32 bs.length)) := by
  have hcount : s.read 4 false = .ok (some (toLE 4 n), s) := by
    exact hs.read (length_toLE 4 n) false
  have htotal := hs.length
  have hint := hs.int
  have hnonneg := hs.nonneg
  rw [List.length_append, length_toLE, List.length_append] at htotal
  have hmod : sizeTOf (n * w) = bs.length := by
    rw [sizeTOf_eq (by omega), hbs]
  have hroom : s.canRead (int32 (sizeTOf (bs.length + 4))) = true := by
    rw [hs.canRead, sizeTOf_eq (by omega), int32_eq (by omega) (by omega),
      List.length_append, length_toLE, List.length_append]
    omega
  have hpop := hs.popCount
  have hstore : Block.store pArr 0 bs = .ok (bs ++ pArr.drop bs.length) := by
    simpa using Block.store_eq pArr bs 0 (by omega)
  have hvalue : ofLE (toLE 4 n) = n := by
    rw [ofLE_toLE, Nat.mod_eq_of_lt (by omega)]
  rw [CELLStream.readArray, hcount]
  simp only [Fallible.ok_bind, Option.map_some, Option.getD_some, hvalue, hmod, hlen, hroom,
    and_self, if_true, hpop.load, hstore]
  rfl

/-- The `Read` or `ReadArray` that matches a field returns what was written, into any block
with room for it. -/
def ReadsField (s : CELLStream) (f : Field) (t : CELLStream) : Prop :=
  match f with
  | .scalar w v => s.read w.bytes true = .ok (some v.toList, t)
  | .array w vs _ => ∀ (pArr : List UInt8) (len : ℕ), vs.length ≤ len →
    len * w.bytes ≤ pArr.length → s.readArray w.bytes pArr len =
      .ok (vs.length, elements vs ++ pArr.drop (vs.length * w.bytes), t)

/-- The reads that match the fields return what was written, one after the other. -/
def ReadsFields (s : CELLStream) : List Field → CELLStream → Prop
  | [], t => s = t
  | f :: fields, t => ∃ u, s.ReadsField f u ∧ u.ReadsFields fields t

theorem Unread.readField (hs : s.Unread (f.encode ++ rest)) :
    ∃ t, s.ReadsField f t ∧ t.Unread rest ∧ t.log = s.log := by
  cases f with
  | scalar w v =>
    rw [Field.encode] at hs
    exact ⟨_, hs.read Vector.length_toList true, hs.pop Vector.length_toList, rfl⟩
  | array w vs hlen =>
    rw [Field.encode, List.append_assoc] at hs
    have hpop := hs.popCount
    refine ⟨_, fun pArr len hle hroom => ?_, hpop.pop (length_elements vs), rfl⟩
    have hmul : vs.length * w.bytes ≤ len * w.bytes := Nat.mul_le_mul_right _ hle
    have hArr : (elements vs).length ≤ pArr.length := by
      rw [length_elements]
      omega
    have hread := hs.readArray hlen (length_elements vs) hle hArr
    rwa [length_elements] at hread

theorem Unread.readFields (hs : s.Unread (encode fields ++ rest)) :
    ∃ t, s.ReadsFields fields t ∧ t.Unread rest ∧ t.log = s.log := by
  induction fields generalizing s with
  | nil => exact ⟨s, rfl, hs, rfl⟩
  | cons f fields ih =>
    rw [encode_cons, List.append_assoc] at hs
    obtain ⟨u, hf, hu, hlog⟩ := hs.readField
    obtain ⟨t, hfs, ht, hlog'⟩ := ih hu
    exact ⟨t, ⟨u, hf, hfs⟩, ht, hlog'.trans hlog⟩

/-! ## Whole messages -/

/-- The message of a writer : its length as far as it fits, the command and the fields. -/
theorem finished {nSize : ℤ} {mem : ℕ → UInt8} {cmd : ℕ} {w₀ w₁ w₂ : CELLStream}
    (hmin : -2147483648 ≤ nSize) (hmax : nSize < 2147483648)
    (hnew : newWrite nSize mem = .ok w₀) (hroom : w₀.canWrite 2 = true)
    (hset : w₀.setNetCmd cmd = .ok w₁) (hwrite : w₁.writeFields fields = .ok (true, w₂)) :
    ∃ w, w₂.finsh = .ok w ∧ Writing nSize.toNat w ∧ w.length = w₂.length ∧
      w.length = (4 + (encode fields).length : ℕ) ∧
      w.written = toLE 2 ((4 + (encode fields).length) % 65536) ++
        (toLE 2 cmd ++ encode fields) := by
  obtain ⟨hw₁, hwritten₁⟩ := Writing.new hmin hmax hnew hroom hset
  obtain ⟨hw₂, hwritten₂⟩ := hw₁.writeFields hwrite
  have hlen : w₂.written.length = 4 + (encode fields).length := by
    simp only [hwritten₂, hwritten₁, List.length_append, length_toLE]
  have hpos := hw₂.length_written
  obtain ⟨w, hfin, hw, hwritten, hlength, -⟩ := hw₂.finsh (by omega)
  refine ⟨w, hfin, hw, hlength, ?_, ?_⟩
  · rw [hlength, CELLStream.length, ← hpos, hlen]
  · rw [hwritten, hlen, hwritten₂, hwritten₁, List.append_assoc,
      List.drop_left' (length_toLE 2 0)]

/-- The header of the message announces its length, as far as it fits. -/
theorem dataLength_data {n : ℕ} (hwritten : s.written = toLE 2 n ++ bs) :
    dataLength s.data = .ok (n % 65536) ∧ headerLen s.data = n % 65536 := by
  have hdata : s.data = toLE 2 n ++ (bs ++ s.pBuff.drop s.nWritePos.toNat) := by
    rw [← List.append_assoc, ← hwritten, written, List.take_append_drop]
    rfl
  have hlen : headerLen s.data = n % 65536 := by
    rw [hdata, headerLen, List.take_left' (length_toLE 2 n), ofLE_toLE]
    rfl
  refine ⟨?_, hlen⟩
  rw [dataLength_eq (by rw [hdata, List.length_append, length_toLE]; omega), hlen]

/-- A reader over the message of a writer. -/
theorem Writing.ofHeader (hw : Writing cap s) {n : ℕ} (hn : n < 65536) (hlen : s.length = n)
    (hwritten : s.written = toLE 2 n ++ bs) : ∃ r, CELLStream.ofHeader s.data = .ok r ∧
      r.Unread (toLE 2 n ++ bs) ∧ r.log = [] := by
  have hle := hw.le
  rw [CELLStream.length] at hlen
  refine ⟨⟨s.data, n, n, 0, []⟩, ?_, ⟨?_, Int.le_refl 0, Int.natCast_nonneg n, ?_, ?_⟩, rfl⟩
  · rw [CELLStream.ofHeader, (dataLength_data hwritten).1, Nat.mod_eq_of_lt hn]
    rfl
  · simp only [data, hw.block]
    omega
  · simp only
    omega
  · rw [← hwritten, written, hlen]
    rfl

end CELLStream

/-- What a write stream wrote a read stream reads back. Whatever the capacity, the command
and the fields, if every write returned true and the length fits 16 bits, then a reader
over the finished data, as long as the header says, returns the length, the command and
the fields. No read fails and nothing is left unread. -/
theorem stream_round_trip {nSize : ℤ} {mem : ℕ → UInt8} {cmd : ℕ} {fields : List Field}
    {w₀ w₁ w₂ : CELLStream} (hmin : -2147483648 ≤ nSize) (hmax : nSize < 2147483648)
    (hcmd : cmd < 65536) (hnew : CELLStream.newWrite nSize mem = .ok w₀)
    (hroom : w₀.canWrite 2 = true) (hset : w₀.setNetCmd cmd = .ok w₁)
    (hwrite : w₁.writeFields fields = .ok (true, w₂)) (hlen : w₂.length ≤ 65535) :
    ∃ w r₀ r₁ r₂ r, w₂.finsh = .ok w ∧ CELLStream.ofHeader w.data = .ok r₀ ∧
      r₀.readUInt16 = .ok (toLE 2 w.length.toNat, r₁) ∧ r₁.getNetCmd = .ok (cmd, r₂) ∧
      r₂.ReadsFields fields r ∧ r.nReadPos = r.nSize ∧ r.log = [] := by
  obtain ⟨w, hfin, hw, hlength, hsize, hwritten⟩ :=
    CELLStream.finished hmin hmax hnew hroom hset hwrite
  generalize 4 + (encode fields).length = n at hsize hwritten
  have hn : n < 65536 := by omega
  rw [Nat.mod_eq_of_lt hn] at hwritten
  obtain ⟨r₀, hheader, hr₀, hlog₀⟩ := hw.ofHeader hn hsize hwritten
  have hr₁ := hr₀.pop (length_toLE 2 n)
  have hr₂ := hr₁.pop (length_toLE 2 cmd)
  rw [← List.append_nil (encode fields)] at hr₂
  obtain ⟨r, hfields, hr, hlog⟩ := hr₂.readFields
  have hread₁ : r₀.readUInt16 = .ok (toLE 2 w.length.toNat, r₀.pop (int32 (2 : ℕ))) := by
    rw [CELLStream.readUInt16, CELLStream.readScalar, hr₀.read (length_toLE 2 n) true, hsize]
    rfl
  have hread₂ : (r₀.pop (int32 (2 : ℕ))).getNetCmd =
      .ok (cmd, (r₀.pop (int32 (2 : ℕ))).pop (int32 (2 : ℕ))) := by
    have hvalue : ofLE (toLE 2 cmd) = cmd := by
      rw [ofLE_toLE]
      exact Nat.mod_eq_of_lt hcmd
    rw [CELLStream.getNetCmd, hr₁.read (length_toLE 2 cmd) true]
    simp only [Fallible.ok_bind, Option.map_some, Option.getD_some, hvalue]
    rfl
  have hend : ((([] : List UInt8).length : ℕ) : ℤ) = r.nSize - r.nReadPos := hr.length
  rw [List.length_nil] at hend
  exact ⟨w, r₀, _, _, r, hfin, hheader, hread₁, hread₂, hfields, by omega, hlog.trans hlog₀⟩

/-- A scalar and an array in a block of 16 bytes. -/
theorem stream_round_trip_small : ∃ w r₀ r₁ r₂ r,
    CELLStream.ofHeader (CELLStream.data w) = .ok r₀ ∧
      r₀.readUInt16 = .ok ([13, 0], r₁) ∧ r₁.getNetCmd = .ok (10, r₂) ∧
      r₂.ReadsFields [.scalar .two #v[1, 2], .array .one [#v[7], #v[8], #v[9]] (by decide)] r ∧
      r.nReadPos = r.nSize := by
  obtain ⟨w₀, w₁, w₂, hnew, hroom, hset, hwrite, -⟩ := CELLStream.exists_written 16 (fun _ => 0) 10
    [.scalar .two #v[1, 2], .array .one [#v[7], #v[8], #v[9]] (by decide)] (by decide)
    (by decide)
  obtain ⟨w, hfin, -, hlength, hsize, -⟩ :=
    CELLStream.finished (by decide) (by decide) hnew hroom hset hwrite
  have h13 : w.length = 13 := hsize
  obtain ⟨w', r₀, r₁, r₂, r, hfin', hheader, hlen, hcmd, hfields, hend, -⟩ :=
    stream_round_trip (by decide) (by decide) (by decide) hnew hroom hset hwrite (by omega)
  obtain rfl := Except.ok.inj (hfin.symm.trans hfin')
  rw [h13] at hlen
  exact ⟨w, r₀, r₁, r₂, r, hheader, hlen, hcmd, hfields, hend⟩

/-! ## One frame -/

/-- The message `w` is one frame : its first two bytes are its length, and when it has
arrived, in any pieces, in an empty receive buffer with room for `cap` bytes, then `hasMsg`
finds it and `pop_front_msg` removes exactly it. -/
def CELLStream.OneFrame (cap : ℤ) (w : CELLStream) : Prop :=
  (headerLen w.data : ℤ) = w.length ∧
  ∀ (c : CELLClient) (pieces : List (List UInt8)), c.recvBuff.WF → c.recvBuff.bytes = [] →
    cap ≤ c.recvBuff.nSize → pieces.flatten = w.data.take w.length.toNat →
    ∃ c' c'', pieces.foldlM (fun c bs => Prod.snd <$> c.recvData (.avail bs)) c = .ok c' ∧
      c'.recvBuff.bytes = w.data.take w.length.toNat ∧ c'.hasMsg = .ok true ∧
      c'.popFrontMsg = .ok c'' ∧ c''.recvBuff.bytes = []

/-- Pieces for which there is room arrive behind what the buffer has. -/
theorem CELLClient.recvData_pieces (pieces : List (List UInt8)) {c : CELLClient}
    (hc : c.recvBuff.WF)
    (hroom : (c.recvBuff.bytes.length : ℤ) + pieces.flatten.length ≤ c.recvBuff.nSize) :
    ∃ c', pieces.foldlM (fun c bs => Prod.snd <$> c.recvData (.avail bs)) c = .ok c' ∧
      c'.recvBuff.WF ∧ c'.recvBuff.bytes = c.recvBuff.bytes ++ pieces.flatten := by
  induction pieces generalizing c with
  | nil => exact ⟨c, rfl, hc, by simp⟩
  | cons bs pieces ih =>
    rw [List.flatten_cons, List.length_append] at hroom
    obtain ⟨ret, b, hread, hwf, hsize, hbytes, -⟩ := hc.read4socket_eq (.avail bs)
    have hdata : RecvResult.data (.avail bs) c.recvBuff.free = bs := by
      rw [RecvResult.data, List.take_of_length_le]
      rw [hc.free_eq]
      omega
    rw [hdata] at hbytes
    obtain ⟨c', hfold, hwf', hbytes'⟩ := ih (c := { c with recvBuff := b }) hwf (by
      simp only [hbytes, hsize, List.length_append]
      omega)
    refine ⟨c', ?_, hwf', ?_⟩
    · rw [List.foldlM_cons, recvData, hread]
      exact hfold
    · rw [hbytes', hbytes, List.flatten_cons, List.append_assoc]

/-- A message whose length is in its header is one frame. -/
theorem CELLStream.Writing.oneFrame {cap : ℕ} {w : CELLStream} (hw : Writing cap w)
    (h4 : 4 ≤ w.length) (hheader : (headerLen w.data : ℤ) = w.length) {n : ℤ} (hn : cap ≤ n) :
    w.OneFrame n := by
  refine ⟨hheader, fun c pieces hc hempty hroom hpieces => ?_⟩
  have hlen : ((w.data.take w.length.toNat).length : ℤ) = w.length := hw.length_written
  have hle : w.length ≤ cap := hw.le
  have hfirst : headerLen (w.data.take w.length.toNat) = headerLen w.data := by
    rw [headerLen, headerLen, List.take_take, Nat.min_eq_left (by omega)]
  obtain ⟨c', hfold, hwf, hbytes⟩ := CELLClient.recvData_pieces pieces hc (by
    rw [hempty, hpieces, List.length_nil]
    omega)
  rw [hempty, List.nil_append, hpieces] at hbytes
  have hcomplete : netmsgFraming.Complete c'.recvBuff.bytes := by
    rw [netmsgFraming_complete, hbytes, hfirst]
    omega
  obtain ⟨r, hhas, hiff⟩ := hwf.hasMsg_eq
  obtain ⟨b, hpop, -, -, hrest⟩ := CELLClient.popFrontMsg_eq hwf hcomplete
  refine ⟨c', _, hfold, hbytes, ?_, hpop, ?_⟩
  · rw [CELLClient.hasMsg, hhas, hiff.mpr hcomplete]
  · rw [hrest, hbytes, hfirst]
    exact List.drop_of_length_le (by omega)

/-- Sixteen bits do not hold a longer length. -/
theorem CELLStream.not_oneFrame {w : CELLStream} {n : ℤ} (hlong : 65535 < w.length) :
    ¬w.OneFrame n := by
  intro hframe
  have := headerLen_lt w.data
  have := hframe.1
  omega

/-- When a finished message is one frame. Whatever the capacity, the command and the
fields, if every write returned true, then the finished message is one frame for a receive
buffer with room for the capacity exactly when the length and the command, four bytes, and
the fields have at most 65535 bytes. -/
theorem finished_message_one_frame_iff {nSize : ℤ} {mem : ℕ → UInt8} {cmd : ℕ}
    {fields : List Field} {w₀ w₁ w₂ : CELLStream} (hmin : -2147483648 ≤ nSize)
    (hmax : nSize < 2147483648) (hnew : CELLStream.newWrite nSize mem = .ok w₀)
    (hroom : w₀.canWrite 2 = true) (hset : w₀.setNetCmd cmd = .ok w₁)
    (hwrite : w₁.writeFields fields = .ok (true, w₂)) :
    ∃ w, w₂.finsh = .ok w ∧ (w.OneFrame nSize ↔ 4 + (encode fields).length ≤ 65535) := by
  obtain ⟨w, hfin, hw, -, hsize, hwritten⟩ :=
    CELLStream.finished hmin hmax hnew hroom hset hwrite
  refine ⟨w, hfin, fun hframe => ?_, fun hfits => ?_⟩
  · by_contra hlong
    exact CELLStream.not_oneFrame (by omega) hframe
  · have hle : w.length ≤ nSize.toNat := hw.le
    have hheader := (CELLStream.dataLength_data hwritten).2
    rw [Nat.mod_mod, Nat.mod_eq_of_lt (by omega)] at hheader
    exact hw.oneFrame (by omega) (by omega) (by omega)

/-- An array of 65536 bytes. -/
def longArray : Field :=
  .array .one (List.replicate 65536 (Vector.replicate _ 0)) (by rw [List.length_replicate]; decide)

theorem length_encode_longArray : (encode [longArray]).length = 65540 := by
  rw [encode_cons, encode_nil, List.append_nil, longArray, Field.encode, List.length_append,
    length_toLE, length_elements, List.length_replicate]
  rfl

/-- A writer with a block of 70000 bytes writes the array, and its message is not one
frame. -/
theorem not_finished_message_one_frame : ¬∀ (nSize : ℤ) (mem : ℕ → UInt8) (cmd : ℕ)
    (fields : List Field) (w₀ w₁ w₂ w : CELLStream), -2147483648 ≤ nSize → nSize < 2147483648 →
    CELLStream.newWrite nSize mem = .ok w₀ → w₀.canWrite 2 = true → w₀.setNetCmd cmd = .ok w₁ →
    w₁.writeFields fields = .ok (true, w₂) → w₂.finsh = .ok w → w.OneFrame nSize := by
  intro hall
  obtain ⟨w₀, w₁, w₂, hnew, hroom, hset, hwrite, -⟩ := CELLStream.exists_written 70000
    (fun _ => 0) 12 [longArray] (by rw [length_encode_longArray]; decide) (by decide)
  obtain ⟨w, hfin, -, -, hsize, -⟩ :=
    CELLStream.finished (by decide) (by decide) hnew hroom hset hwrite
  have hframe := hall _ _ _ _ w₀ w₁ w₂ w (by decide) (by decide) hnew hroom hset hwrite hfin
  rw [length_encode_longArray] at hsize
  exact CELLStream.not_oneFrame (by omega) hframe

/-- The same writer with a number and two arrays. -/
theorem finished_message_one_frame_iff_three : ∃ w₁ w₂ w : CELLStream, w₁.writeFields
    [.scalar .four #v[1, 2, 3, 4], .array .one [#v[5], #v[6]] (by decide),
      .array .eight [#v[7, 8, 9, 10, 11, 12, 13, 14]] (by decide)] = .ok (true, w₂) ∧
    w₂.finsh = .ok w ∧ w.OneFrame 70000 := by
  obtain ⟨w₀, w₁, w₂, hnew, hroom, hset, hwrite, -⟩ := CELLStream.exists_written 70000
    (fun _ => 0) 12 [.scalar .four #v[1, 2, 3, 4], .array .one [#v[5], #v[6]] (by decide),
      .array .eight [#v[7, 8, 9, 10, 11, 12, 13, 14]] (by decide)] (by decide) (by decide)
  obtain ⟨w, hfin, hiff⟩ :=
    finished_message_one_frame_iff (by decide) (by decide) hnew hroom hset hwrite
  exact ⟨w₁, w₂, w, hwrite, hfin, hiff.mpr (by decide)⟩

end CellNet
