import CellNet.Fifo
import CellNet.MessageHeader

/-!
# The buffer

`CELLBuffer` : one block of `nSize` bytes whose first `nLast` bytes are in use. It is
both the send buffer (`push`, `write2socket`) and the receive buffer (`read4socket`,
`hasMsg`, `pop`) of a client.

The outcome of a system call is an argument. `SendResult.accept n` is a socket that
takes up to `n` bytes, `RecvResult.avail bs` one with the bytes `bs` waiting; both
calls return what fits the length they were asked for. `memcpy` within the block moves
the bytes as `memmove` does.

`WF` says the counters describe the block, and `bytes` is what is stored. Under `WF`
each operation is one on `bytes` : `push` appends or refuses, `write2socket` and `pop`
drop a prefix, `read4socket` appends, and `hasMsg` says that a complete frame is in
front.
-/

namespace CellNet

/-- `SOCKET`, a descriptor. -/
abbrev SOCKET :=
  ℤ

/-- `INVALID_SOCKET`. -/
def INVALID_SOCKET : SOCKET :=
  -1

/-- `SOCKET_ERROR`. -/
def SOCKET_ERROR : ℤ :=
  -1

/-- `SEND_BUFF_SZIE`. -/
def SEND_BUFF_SZIE : ℤ :=
  10240

/-! ## System calls -/

/-- What a socket does with a `send`. -/
inductive SendResult
  /-- The call fails. -/
  | fail
  /-- The socket has room for `n` bytes. -/
  | accept (n : ℕ)
  deriving DecidableEq, Repr

/-- The return value of `send` for `len` bytes. -/
def SendResult.ret : SendResult → ℤ → ℤ
  | fail, _ => -1
  | accept n, len => min n len

/-- What a socket does with a `recv`. -/
inductive RecvResult
  /-- The call fails. -/
  | fail
  /-- The bytes `bs` wait in the socket; none wait once the peer has closed. -/
  | avail (bs : List UInt8)
  deriving DecidableEq, Repr

/-- The bytes `recv` delivers into a buffer of `len` bytes. -/
def RecvResult.data : RecvResult → ℤ → List UInt8
  | fail, _ => []
  | avail bs, len => bs.take len.toNat

/-! ## The class -/

/-- A `CELLBuffer`. -/
structure CELLBuffer where
  /-- The block. -/
  pBuff : List UInt8
  /-- The end of the stored data. -/
  nLast : ℤ
  /-- The size of the block. -/
  nSize : ℤ
  /-- How often the buffer was full. -/
  fullCount : ℤ
  deriving DecidableEq, Repr

namespace CELLBuffer

/-- The constructor. The new block holds what `mem` held. -/
def new (nSize : ℤ) (mem : ℕ → UInt8) : CELLBuffer :=
  ⟨(List.range nSize.toNat).map mem, 0, nSize, 0⟩

/-- `data()`, the pointer to the block. -/
def data (b : CELLBuffer) : List UInt8 :=
  b.pBuff

/-- `push`. -/
def push (b : CELLBuffer) (pData : List UInt8) (nLen : ℤ) : Exec (Bool × CELLBuffer) :=
  if int32 (b.nLast + nLen) ≤ b.nSize then do
    let xs ← Block.load pData 0 nLen
    let pBuff ← Block.store b.pBuff b.nLast xs
    let nLast := int32 (b.nLast + nLen)
    let fullCount := if nLast = SEND_BUFF_SZIE then int32 (b.fullCount + 1) else b.fullCount
    return (true, { b with pBuff, nLast, fullCount })
  else
    return (false, { b with fullCount := int32 (b.fullCount + 1) })

/-- `pop`. -/
def pop (b : CELLBuffer) (nLen : ℤ) : Exec CELLBuffer := do
  let n := int32 (b.nLast - nLen)
  let pBuff ← if 0 < n then Block.move b.pBuff 0 nLen n else .ok b.pBuff
  let fullCount := if 0 < b.fullCount then b.fullCount - 1 else b.fullCount
  return { b with pBuff, nLast := n, fullCount }

/-- `write2socket`, with the bytes the socket accepted. -/
def write2socket (b : CELLBuffer) (sockfd : SOCKET) (r : SendResult) :
    Exec (ℤ × List UInt8 × CELLBuffer) :=
  if 0 < b.nLast ∧ INVALID_SOCKET ≠ sockfd then do
    let bs ← Block.load b.pBuff 0 b.nLast
    let ret := r.ret b.nLast
    if ret ≤ 0 then
      return (SOCKET_ERROR, [], b)
    else if ret = b.nLast then
      return (ret, bs, { b with nLast := 0, fullCount := 0 })
    else
      let nLast := int32 (b.nLast - ret)
      let pBuff ← Block.move b.pBuff 0 ret nLast
      return (ret, bs.take ret.toNat, { b with pBuff, nLast, fullCount := 0 })
  else
    return (0, [], b)

/-- `read4socket`. -/
def read4socket (b : CELLBuffer) (r : RecvResult) : Exec (ℤ × CELLBuffer) :=
  if 0 < int32 (b.nSize - b.nLast) then do
    let bs := r.data (int32 (b.nSize - b.nLast))
    if bs.length ≤ 0 then
      return (SOCKET_ERROR, b)
    else
      let pBuff ← Block.store b.pBuff b.nLast bs
      return (bs.length, { b with pBuff, nLast := int32 (b.nLast + bs.length) })
  else
    return (0, b)

/-- `hasMsg`. -/
def hasMsg (b : CELLBuffer) : Exec Bool :=
  if sizeofDataHeader ≤ sizeT b.nLast then do
    let n ← dataLength b.pBuff
    return decide ((n : ℤ) ≤ b.nLast)
  else
    return false

/-- `needWrite`. -/
def needWrite (b : CELLBuffer) : Bool :=
  decide (0 < b.nLast)

/-! ## The stored bytes -/

/-- The counters describe the block. -/
structure WF (b : CELLBuffer) : Prop where
  size : (b.pBuff.length : ℤ) = b.nSize
  nonneg : 0 ≤ b.nLast
  le : b.nLast ≤ b.nSize
  lt : b.nSize < 2147483648

/-- The stored bytes. -/
def bytes (b : CELLBuffer) : List UInt8 :=
  b.pBuff.take b.nLast.toNat

/-- The free space, as `recv` is asked for it. -/
def free (b : CELLBuffer) : ℤ :=
  b.nSize - b.nLast

theorem new_wf {nSize : ℤ} (h : 0 ≤ nSize) (h' : nSize < 2147483648) (mem : ℕ → UInt8) :
    (new nSize mem).WF :=
  ⟨by simp [new, h], le_refl _, h, h'⟩

@[simp] theorem bytes_new (nSize : ℤ) (mem : ℕ → UInt8) : (new nSize mem).bytes = [] := by
  simp [new, bytes]

namespace WF

variable {b : CELLBuffer}

theorem length_bytes (h : b.WF) : (b.bytes.length : ℤ) = b.nLast := by
  have := h.size
  have := h.nonneg
  have := h.le
  simp only [bytes, List.length_take]
  omega

theorem free_nonneg (h : b.WF) : 0 ≤ b.free := by
  have := h.le
  unfold free
  omega

theorem free_eq (h : b.WF) : b.free = b.nSize - b.bytes.length := by
  rw [h.length_bytes, free]

/-- The stored bytes are the front of the block. -/
theorem bytes_prefix (_ : b.WF) : b.bytes <+: b.pBuff :=
  List.take_prefix _ _

/-! ## The send side -/

/-- A push that fits appends. -/
theorem push_of_fits (h : b.WF) {pData : List UInt8} {nLen : ℤ} (h0 : 0 ≤ nLen)
    (hdata : nLen ≤ pData.length) (hfit : b.nLast + nLen ≤ b.nSize) :
    ∃ b', b.push pData nLen = .ok (true, b') ∧ b'.WF ∧ b'.nSize = b.nSize ∧
      b'.bytes = b.bytes ++ pData.take nLen.toNat := by
  obtain ⟨pBuff, nLast, nSize, fullCount⟩ := b
  obtain ⟨hsize, hnonneg, hle, hlt⟩ := h
  simp only at *
  obtain ⟨last, rfl⟩ := Int.eq_ofNat_of_zero_le hnonneg
  obtain ⟨len, rfl⟩ := Int.eq_ofNat_of_zero_le h0
  have hsum : int32 ((last : ℤ) + len) = ((last + len : ℕ) : ℤ) := by
    rw [int32_eq (by omega) (by omega)]
    push_cast
    rfl
  have hload : Block.load pData 0 (len : ℤ) = .ok (pData.take len) := by
    simpa using Block.load_eq pData 0 len (by omega)
  have htake : (pData.take len).length = len := by simp; omega
  have hstore := Block.store_eq pBuff (pData.take len) last (by rw [htake]; omega)
  simp only [push, hsum, hload, hstore, Fallible.ok_bind, Fallible.pure_eq]
  rw [if_pos (by push_cast; omega)]
  refine ⟨_, rfl, ⟨?_, ?_, ?_, hlt⟩, rfl, ?_⟩
  · simp only [List.length_append, List.length_take, List.length_drop, htake]
    omega
  · simp only
    omega
  · simp only
    push_cast
    omega
  · have hlast : (pBuff.take last).length = last := by simp; omega
    simp only [bytes, Int.toNat_natCast]
    rw [List.take_append_of_le_length (by rw [List.length_append, hlast, htake])]
    exact List.take_of_length_le (by rw [List.length_append, hlast, htake])

/-- A push that does not fit is refused. -/
theorem push_of_not_fits (h : b.WF) {pData : List UInt8} {nLen : ℤ} (h0 : 0 ≤ nLen)
    (hov : b.nLast + nLen < 2147483648) (hfit : b.nSize < b.nLast + nLen) :
    b.push pData nLen = .ok (false, { b with fullCount := int32 (b.fullCount + 1) }) := by
  have := h.nonneg
  rw [push, int32_eq (by omega) hov, if_neg (by omega)]
  rfl

/-- A push whose end overflows copies behind the block. -/
theorem push_of_overflow (h : b.WF) {pData : List UInt8} {nLen : ℤ}
    (hdata : nLen ≤ pData.length) (hint : nLen < 2147483648)
    (hov : 2147483648 ≤ b.nLast + nLen) : b.push pData nLen = .error .outOfBounds := by
  have hle := h.le
  have hlt := h.lt
  have hsize := h.size
  -- the sum is negative as an `int`
  have hsum : int32 (b.nLast + nLen) = b.nLast + nLen - 4294967296 := by
    rw [← int32_eq (x := b.nLast + nLen - 4294967296) (by omega) (by omega)]
    apply int32_congr
    omega
  obtain ⟨len, rfl⟩ := Int.eq_ofNat_of_zero_le (a := nLen) (by omega)
  have hload : Block.load pData 0 (len : ℤ) = .ok (pData.take len) := by
    simpa using Block.load_eq pData 0 len (by omega)
  have htake : (pData.take len).length = len := by simp; omega
  have hstore : Block.store b.pBuff b.nLast (pData.take len) = .error .outOfBounds := by
    rw [Block.store, if_neg (by rw [htake]; omega)]
  rw [push, hsum, if_pos (by omega), hload, Fallible.ok_bind, hstore, Fallible.error_bind]

/-- A push of a negative length passes the test, and copies the length as a `size_t`. -/
theorem push_of_neg (h : b.WF) {pData : List UInt8} {nLen : ℤ} (hmin : -2147483648 ≤ nLen)
    (hneg : nLen < 0) : b.push pData nLen = .error .outOfBounds := by
  have hle := h.le
  have hlt := h.lt
  have hnonneg := h.nonneg
  rw [push, int32_eq (by omega) (by omega), if_pos (by omega), Block.load, if_neg (by omega),
    Fallible.error_bind]

theorem withFullCount (h : b.WF) (n : ℤ) : { b with fullCount := n }.WF :=
  ⟨h.size, h.nonneg, h.le, h.lt⟩

/-- A push that returns has appended, or was refused. It does not return if `nLast` and
the length overflow together. -/
theorem push_of_ok (h : b.WF) {pData : List UInt8} {nLen : ℤ} (h0 : 0 ≤ nLen)
    (hdata : nLen ≤ pData.length) (hint : nLen < 2147483648) {r : Bool} {b' : CELLBuffer}
    (hpush : b.push pData nLen = .ok (r, b')) : b'.WF ∧ b'.nSize = b.nSize ∧
      ((r = true ∧ b'.bytes = b.bytes ++ pData.take nLen.toNat) ∨
        (r = false ∧ b'.bytes = b.bytes)) := by
  by_cases hfit : b.nLast + nLen ≤ b.nSize
  · obtain ⟨b₁, hb₁, hwf, hsz, hbytes⟩ := h.push_of_fits h0 hdata hfit
    rw [hb₁, Except.ok.injEq, Prod.mk.injEq] at hpush
    obtain ⟨rfl, rfl⟩ := hpush
    exact ⟨hwf, hsz, Or.inl ⟨rfl, hbytes⟩⟩
  by_cases hov : b.nLast + nLen < 2147483648
  · rw [h.push_of_not_fits h0 hov (by omega), Except.ok.injEq, Prod.mk.injEq] at hpush
    obtain ⟨rfl, rfl⟩ := hpush
    exact ⟨h.withFullCount _, rfl, Or.inr ⟨rfl, rfl⟩⟩
  · rw [h.push_of_overflow hdata hint (by omega)] at hpush
    simp at hpush

/-- A failed `send` changes nothing; else the buffer loses the bytes it accepted. -/
theorem write2socket_cases (h : b.WF) (sockfd : SOCKET) (r : SendResult) :
    b.write2socket sockfd r = .ok (0, [], b) ∨
    b.write2socket sockfd r = .ok (SOCKET_ERROR, [], b) ∨
    ∃ (k : ℕ) (b' : CELLBuffer), 0 < k ∧ k ≤ b.bytes.length ∧
      b.write2socket sockfd r = .ok ((k : ℤ), b.bytes.take k, b') ∧ b'.WF ∧
      b'.nSize = b.nSize ∧ b'.bytes = b.bytes.drop k := by
  have hlen := h.length_bytes
  obtain ⟨hsize, hnonneg, hle, hlt⟩ := h
  by_cases hcond : 0 < b.nLast ∧ INVALID_SOCKET ≠ sockfd
  swap
  · left
    rw [write2socket, if_neg hcond]
    rfl
  right
  obtain ⟨last, hlast⟩ := Int.eq_ofNat_of_zero_le hnonneg
  have hload : Block.load b.pBuff 0 b.nLast = .ok b.bytes := by
    simpa [hlast, bytes] using Block.load_eq b.pBuff 0 last (by omega)
  simp only [write2socket, if_pos hcond, hload, Fallible.ok_bind, Fallible.pure_eq]
  by_cases hret : r.ret b.nLast ≤ 0
  · left
    rw [if_pos hret]
  right
  rw [if_neg hret]
  obtain ⟨k, hk⟩ := Int.eq_ofNat_of_zero_le (a := r.ret b.nLast) (by omega)
  have hkle : r.ret b.nLast ≤ b.nLast := by
    cases r with
    | fail => simp [SendResult.ret] at hret
    | accept n => exact min_le_right _ _
  rw [hk] at hret hkle ⊢
  refine ⟨k, ?_⟩
  by_cases hall : (k : ℤ) = b.nLast
  · rw [if_pos hall]
    have hkl : k = b.bytes.length := by omega
    refine ⟨{ b with nLast := 0, fullCount := 0 }, by omega, hkl.le, ?_,
      ⟨hsize, le_refl _, by simp only; omega, hlt⟩, rfl, ?_⟩
    · rw [hkl, List.take_length]
    · simp [bytes, hkl]
  · rw [if_neg hall, int32_eq (by omega) (by omega), hlast]
    have hsub : (last : ℤ) - k = ((last - k : ℕ) : ℤ) := by omega
    rw [hsub, Block.move_zero_eq (by omega)]
    refine ⟨_, by omega, by omega, rfl, ⟨?_, ?_, ?_, hlt⟩, rfl, ?_⟩
    · simp only [List.length_append, List.length_take, List.length_drop]
      omega
    · simp only
      omega
    · simp only
      omega
    · have hmoved : ((b.pBuff.drop k).take (last - k)).length = last - k := by simp; omega
      simp only [bytes, hlast, Int.toNat_natCast]
      rw [List.take_left' hmoved, List.drop_take]

/-! ## The receive side -/

/-- Without free space nothing is read. -/
theorem read4socket_of_full (h : b.WF) (hfull : b.free = 0) (r : RecvResult) :
    b.read4socket r = .ok (0, b) := by
  have := h.lt
  unfold free at hfull
  rw [read4socket, int32_eq (by omega) (by omega), if_neg (by omega)]
  rfl

/-- With free space `recv` fails or what it delivers is appended. -/
theorem read4socket_of_free (h : b.WF) (hfree : 0 < b.free) (r : RecvResult) :
    (r.data b.free = [] ∧ b.read4socket r = .ok (SOCKET_ERROR, b)) ∨
    (r.data b.free ≠ [] ∧ ∃ b', b.read4socket r = .ok (((r.data b.free).length : ℤ), b') ∧
      b'.WF ∧ b'.nSize = b.nSize ∧ b'.bytes = b.bytes ++ r.data b.free) := by
  obtain ⟨hsize, hnonneg, hle, hlt⟩ := h
  obtain ⟨last, hlast⟩ := Int.eq_ofNat_of_zero_le hnonneg
  have hdata : ((r.data b.free).length : ℤ) ≤ b.free := by
    cases r with
    | fail => simpa [RecvResult.data] using hfree.le
    | avail bs => simp only [RecvResult.data, List.length_take]; omega
  unfold free at *
  rw [read4socket, int32_eq (by omega) (by omega), if_pos hfree]
  generalize r.data (b.nSize - b.nLast) = bs at hdata
  rcases bs with _ | ⟨x, xs⟩
  · exact Or.inl ⟨rfl, rfl⟩
  · refine Or.inr ⟨by simp, ?_⟩
    have hstore := Block.store_eq b.pBuff (x :: xs) last (by omega)
    have hsum : int32 (b.nLast + (x :: xs).length) = ((last + (x :: xs).length : ℕ) : ℤ) := by
      rw [int32_eq (by omega) (by omega), hlast]
      push_cast
      rfl
    rw [if_neg (by simp), hsum, hlast, hstore]
    refine ⟨_, rfl, ⟨?_, ?_, ?_, hlt⟩, rfl, ?_⟩
    · simp only [List.length_append, List.length_take, List.length_drop]
      omega
    · simp only
      omega
    · simp only
      push_cast
      omega
    · have hpre : (b.pBuff.take last).length = last := by simp; omega
      simp only [bytes, hlast, Int.toNat_natCast]
      rw [List.take_append_of_le_length (by rw [List.length_append, hpre])]
      exact List.take_of_length_le (by rw [List.length_append, hpre])

/-- What is read is appended, in every case. -/
theorem read4socket_eq (h : b.WF) (r : RecvResult) : ∃ ret b', b.read4socket r = .ok (ret, b') ∧
    b'.WF ∧ b'.nSize = b.nSize ∧ b'.bytes = b.bytes ++ r.data b.free ∧
    ret.toNat = (r.data b.free).length := by
  rcases h.free_nonneg.eq_or_lt with hfull | hfree
  · have hnil : r.data b.free = [] := by cases r <;> simp [RecvResult.data, ← hfull]
    exact ⟨0, b, h.read4socket_of_full hfull.symm r, h, rfl, by simp [hnil], by simp [hnil]⟩
  · rcases h.read4socket_of_free hfree r with ⟨hnil, hr⟩ | ⟨-, b', hr, hwf, hsize, hbytes⟩
    · exact ⟨SOCKET_ERROR, b, hr, h, rfl, by simp [hnil], by simp [hnil, SOCKET_ERROR]⟩
    · exact ⟨_, b', hr, hwf, hsize, hbytes, by simp⟩

theorem headerLen_pBuff (h : b.WF) (h4 : 4 ≤ b.bytes.length) :
    dataLength b.pBuff = .ok (headerLen b.bytes) := by
  obtain ⟨zs, hzs⟩ := h.bytes_prefix
  have hle : b.bytes.length ≤ b.pBuff.length := h.bytes_prefix.length_le
  rw [dataLength_eq (by omega), ← hzs, headerLen_append (by omega)]

/-- `hasMsg` finds a complete frame in front. -/
theorem hasMsg_eq (h : b.WF) : ∃ r : Bool, b.hasMsg = .ok r ∧
    (r = true ↔ netmsgFraming.Complete b.bytes) := by
  have hlen := h.length_bytes
  have hlt := h.lt
  have hle := h.le
  have hnonneg := h.nonneg
  rw [hasMsg, sizeT_eq hnonneg (by omega), sizeofDataHeader, netmsgFraming_complete]
  by_cases h4 : 4 ≤ b.bytes.length
  · rw [if_pos (by omega), h.headerLen_pBuff h4]
    refine ⟨_, rfl, ?_⟩
    simp only [decide_eq_true_eq]
    omega
  · rw [if_neg (by omega)]
    exact ⟨false, rfl, by simp; omega⟩

/-- Popping what is stored drops it. -/
theorem pop_eq (h : b.WF) {n : ℕ} (hn : n ≤ b.bytes.length) :
    ∃ b', b.pop n = .ok b' ∧ b'.WF ∧ b'.nSize = b.nSize ∧ b'.bytes = b.bytes.drop n := by
  have hlen := h.length_bytes
  obtain ⟨hsize, hnonneg, hle, hlt⟩ := h
  obtain ⟨last, hlast⟩ := Int.eq_ofNat_of_zero_le hnonneg
  have hsub : int32 (b.nLast - n) = ((last - n : ℕ) : ℤ) := by
    rw [int32_eq (by omega) (by omega)]
    omega
  simp only [pop, hsub]
  by_cases hpos : (0 : ℤ) < ((last - n : ℕ) : ℤ)
  · rw [if_pos hpos, Block.move_zero_eq (by omega)]
    refine ⟨_, rfl, ⟨?_, ?_, ?_, hlt⟩, rfl, ?_⟩
    · simp only [List.length_append, List.length_take, List.length_drop]
      omega
    · simp only
      omega
    · simp only
      omega
    · have hmoved : ((b.pBuff.drop n).take (last - n)).length = last - n := by simp; omega
      simp only [bytes, hlast, Int.toNat_natCast]
      rw [List.take_left' hmoved, List.drop_take]
  · rw [if_neg hpos]
    have hz : last - n = 0 := by omega
    refine ⟨_, rfl, ⟨hsize, ?_, ?_, hlt⟩, rfl, ?_⟩
    · simp only
      omega
    · simp only
      omega
    · simp only [bytes, hlast, Int.toNat_natCast, hz, List.take_zero]
      exact (List.drop_of_length_le (by simp; omega)).symm

end WF

end CELLBuffer

end CellNet
