import CellNet.Buffer
import CellNet.Calls
import CellNet.Fallible

/-!
# Copies within the buffer

`pop` and `write2socket` move what is left in a `CELLBuffer` to the front with `memcpy`, which is
undefined when its two ranges overlap. `Block.copy` is `memcpy` with that rule, and
`popMemcpy` and `write2socketMemcpy` are the two calls with it : where they return, they do what
`pop` and `write2socket` do (`popMemcpy_eq`, `write2socketMemcpy_eq`).

`compaction_apart_iff` : over any sequence of calls, no two ranges overlap exactly when each frame
that is popped, and each partial send, takes at least half of what is stored.
-/

namespace CellNet

/-- The rule an operation broke, that of `memcpy` among them. -/
inductive CopyFault
  /-- A rule of `UB`. -/
  | ub (u : UB)
  /-- The ranges of a `memcpy` overlap. -/
  | overlap
  deriving DecidableEq, Repr

/-- A computation in which the rule of `memcpy` counts. -/
abbrev Copying := Except CopyFault

/-- A computation without a `memcpy`. -/
def Exec.copying {α : Type*} (x : Exec α) : Copying α :=
  x.mapError .ub

theorem Exec.copying_eq_ok {α : Type*} {x : Exec α} {a : α} : x.copying = .ok a ↔ x = .ok a :=
  Fallible.mapError_eq_ok

theorem Exec.copying_ne_overlap {α : Type*} (x : Exec α) : x.copying ≠ .error .overlap := by
  intro h
  obtain ⟨u, -, hu⟩ := Fallible.mapError_eq_error.mp h
  exact absurd hu nofun

/-- A computation that breaks the rule of `memcpy` under the condition `p` only. -/
theorem Exec.ite_overlap_ne_iff {α : Type*} {p : Prop} [Decidable p] {x : Exec α} :
    (if p then .error .overlap else x.copying) ≠ .error .overlap ↔ ¬p := by
  split
  · rename_i hp
    exact iff_of_false (fun hne => hne rfl) (not_not.mpr hp)
  · rename_i hp
    exact iff_of_true x.copying_ne_overlap hp

namespace Block

variable {α : Type*}

/-- No cell is among the `n` at `dst` and among the `n` at `src`. -/
def Apart (dst src n : ℤ) : Prop :=
  n ≤ 0 ∨ dst + n ≤ src ∨ src + n ≤ dst

instance (dst src n : ℤ) : Decidable (Apart dst src n) :=
  inferInstanceAs (Decidable (_ ∨ _))

/-- Cells that are moved to the front are apart if they move by their number at least. -/
theorem apart_zero_iff {src n : ℤ} (hsrc : 0 ≤ src) (hn : 0 < n) : Apart 0 src n ↔ n ≤ src := by
  unfold Apart
  omega

/-- `memcpy` of `n` cells from `src` to `dst`. -/
def copy (m : List α) (dst src n : ℤ) : Copying (List α) :=
  if Apart dst src n then (move m dst src n).copying else .error .overlap

end Block

namespace CELLBuffer

/-! ## The calls -/

/-- `pop`. -/
def popMemcpy (b : CELLBuffer) (nLen : ℤ) : Copying CELLBuffer := do
  let n := int32 (b.nLast - nLen)
  let pBuff ← if 0 < n then Block.copy b.pBuff 0 nLen n else .ok b.pBuff
  let fullCount := if 0 < b.fullCount then b.fullCount - 1 else b.fullCount
  return { b with pBuff, nLast := n, fullCount }

/-- `write2socket`, with the bytes the socket accepted. -/
def write2socketMemcpy (b : CELLBuffer) (sockfd : SOCKET) (r : SendResult) :
    Copying (ℤ × List UInt8 × CELLBuffer) :=
  if 0 < b.nLast ∧ INVALID_SOCKET ≠ sockfd then do
    let bs ← (Block.load b.pBuff 0 b.nLast).copying
    let ret := r.ret b.nLast
    if ret ≤ 0 then
      return (SOCKET_ERROR, [], b)
    else if ret = b.nLast then
      return (ret, bs, { b with nLast := 0, fullCount := 0 })
    else
      let nLast := int32 (b.nLast - ret)
      let pBuff ← Block.copy b.pBuff 0 ret nLast
      return (ret, bs.take ret.toNat, { b with pBuff, nLast, fullCount := 0 })
  else
    return (0, [], b)

/-- `pop_front_msg`, on the buffer of the client. -/
def popFrontMsgMemcpy (b : CELLBuffer) : Copying CELLBuffer := do
  if ← b.hasMsg.copying then
    let n ← (dataLength b.pBuff).copying
    b.popMemcpy n
  else
    return b

end CELLBuffer

/-- A call of a `CELLBuffer`. What is pushed has the bytes its caller says it has. -/
inductive BufferCall
  | push (pData : List UInt8) (nLen : ℤ) (hmin : -2147483648 ≤ nLen)
    (hmax : nLen < 2147483648) (hData : nLen ≤ pData.length)
  | write2socket (sockfd : SOCKET) (r : SendResult)
  | read4socket (r : RecvResult)
  | popFrontMsg

namespace CELLBuffer

variable {b b' : CELLBuffer} {call : BufferCall}

/-- One call. -/
def bufferCall (b : CELLBuffer) : BufferCall → Copying (Unit × CELLBuffer)
  | .push pData nLen .. => do
    let (_, b) ← (b.push pData nLen).copying
    return ((), b)
  | .write2socket sockfd r => do
    let (_, _, b) ← b.write2socketMemcpy sockfd r
    return ((), b)
  | .read4socket r => do
    let (_, b) ← (b.read4socket r).copying
    return ((), b)
  | .popFrontMsg => do
    let b ← b.popFrontMsgMemcpy
    return ((), b)

/-- The call does not move more bytes than it removes. -/
def Halves (b : CELLBuffer) : BufferCall → Prop
  | .push .. | .read4socket _ => True
  | .write2socket sockfd r => INVALID_SOCKET ≠ sockfd →
    ∀ n : ℕ, r = .accept n → 0 < n → n < b.bytes.length → b.bytes.length ≤ 2 * n
  | .popFrontMsg => netmsgFraming.Complete b.bytes → b.bytes.length ≤ 2 * headerLen b.bytes

/-! ## With and without the rule -/

/-- `pop` with the rule of `memcpy` is `pop`, unless the rule is broken. -/
theorem popMemcpy_eq (b : CELLBuffer) (nLen : ℤ) :
    b.popMemcpy nLen =
      if 0 < int32 (b.nLast - nLen) ∧ ¬Block.Apart 0 nLen (int32 (b.nLast - nLen)) then
        .error .overlap
      else (b.pop nLen).copying := by
  unfold popMemcpy pop
  by_cases hn : 0 < int32 (b.nLast - nLen)
  · simp only [true_and, hn]
    by_cases hapart : Block.Apart 0 nLen (int32 (b.nLast - nLen))
    · rw [if_neg (not_not.mpr hapart), Block.copy, if_pos hapart]
      cases Block.move b.pBuff 0 nLen (int32 (b.nLast - nLen)) <;> rfl
    · rw [if_pos hapart, Block.copy, if_neg hapart]
      rfl
  · simp only [hn, false_and, if_false]
    rfl

/-- `write2socket` takes a part of the bytes. -/
def SendsPart (b : CELLBuffer) (sockfd : SOCKET) (r : SendResult) : Prop :=
  (0 < b.nLast ∧ INVALID_SOCKET ≠ sockfd) ∧ 0 < r.ret b.nLast ∧ r.ret b.nLast ≠ b.nLast

instance (sockfd : SOCKET) (r : SendResult) : Decidable (b.SendsPart sockfd r) :=
  inferInstanceAs (Decidable (_ ∧ _))

/-- `write2socket` with the rule of `memcpy` is `write2socket`, unless the rule is broken. -/
theorem WF.write2socketMemcpy_eq (h : b.WF) (sockfd : SOCKET) (r : SendResult) :
    b.write2socketMemcpy sockfd r =
      if b.SendsPart sockfd r ∧
          ¬Block.Apart 0 (r.ret b.nLast) (int32 (b.nLast - r.ret b.nLast)) then
        .error .overlap
      else (b.write2socket sockfd r).copying := by
  obtain ⟨hsize, hnonneg, hle, -⟩ := h
  obtain ⟨last, hlast⟩ := Int.eq_ofNat_of_zero_le hnonneg
  have hload : Block.load b.pBuff 0 b.nLast = .ok (b.pBuff.take last) := by
    simpa [hlast] using Block.load_eq b.pBuff 0 last (by omega)
  have hcopying : (Exec.copying (.ok (b.pBuff.take last)) : Copying _) = .ok _ := rfl
  by_cases hcond : 0 < b.nLast ∧ INVALID_SOCKET ≠ sockfd
  swap
  · rw [write2socketMemcpy, write2socket, if_neg hcond, if_neg hcond, if_neg fun hs => hcond hs.1.1]
    rfl
  rw [write2socketMemcpy, write2socket, if_pos hcond, if_pos hcond, hload, hcopying,
    Fallible.ok_bind, Fallible.ok_bind]
  dsimp only
  by_cases hret : r.ret b.nLast ≤ 0
  · rw [if_pos hret, if_pos hret, if_neg fun hs => absurd hs.1.2.1 (not_lt.mpr hret)]
    rfl
  rw [if_neg hret, if_neg hret]
  by_cases hall : r.ret b.nLast = b.nLast
  · rw [if_pos hall, if_pos hall, if_neg fun hs => hs.1.2.2 hall]
    rfl
  rw [if_neg hall, if_neg hall]
  by_cases hapart : Block.Apart 0 (r.ret b.nLast) (int32 (b.nLast - r.ret b.nLast))
  · rw [if_neg fun hs => hs.2 hapart, Block.copy, if_pos hapart]
    cases Block.move b.pBuff 0 (r.ret b.nLast) (int32 (b.nLast - r.ret b.nLast)) <;> rfl
  · rw [if_pos ⟨⟨hcond, not_le.mp hret, hall⟩, hapart⟩, Block.copy, if_neg hapart]
    rfl

/-! ## One call -/

namespace WF

theorem popFrontMsgMemcpy_of_not_complete (h : b.WF) (hc : ¬netmsgFraming.Complete b.bytes) :
    b.popFrontMsgMemcpy = .ok b := by
  obtain ⟨r, hr, hiff⟩ := h.hasMsg_eq
  obtain rfl : r = false := Bool.eq_false_iff.mpr (mt hiff.mp hc)
  rw [popFrontMsgMemcpy, hr]
  rfl

theorem popFrontMsgMemcpy_of_complete (h : b.WF) (hc : netmsgFraming.Complete b.bytes) :
    b.popFrontMsgMemcpy = b.popMemcpy (headerLen b.bytes) := by
  obtain ⟨r, hr, hiff⟩ := h.hasMsg_eq
  obtain rfl : r = true := hiff.mpr hc
  rw [popFrontMsgMemcpy, hr, h.headerLen_pBuff (netmsgFraming_complete.mp hc).1]
  rfl

/-- A frame of `n` bytes is popped without an overlap exactly if no more than `n` bytes are
behind it. -/
theorem popMemcpy_ne_overlap_iff (h : b.WF) {n : ℕ} (hn : n ≤ b.bytes.length) :
    b.popMemcpy n ≠ .error .overlap ↔ b.bytes.length ≤ 2 * n := by
  have hlen := h.length_bytes
  have hle := h.le
  have hlt := h.lt
  have hsub : int32 (b.nLast - n) = b.nLast - n := int32_eq (by omega) (by omega)
  rw [popMemcpy_eq, Exec.ite_overlap_ne_iff, hsub, not_and, not_not]
  constructor
  · intro hapart
    by_contra hmore
    have hle := (Block.apart_zero_iff (by omega) (by omega)).mp (hapart (by omega))
    omega
  · intro hhalf hpos
    exact (Block.apart_zero_iff (by omega) hpos).mpr (by omega)

/-- What a socket with room for `n` bytes takes, if there are more. -/
theorem ret_accept {n : ℕ} {len : ℤ} (h : n < len) : SendResult.ret (.accept n) len = n :=
  min_eq_left h.le

theorem sendsPart_iff (h : b.WF) {sockfd : SOCKET} {r : SendResult} :
    b.SendsPart sockfd r ↔
      INVALID_SOCKET ≠ sockfd ∧ ∃ n : ℕ, r = .accept n ∧ 0 < n ∧ n < b.bytes.length := by
  have hlen := h.length_bytes
  constructor
  · rintro ⟨⟨-, hsock⟩, hpos, hne⟩
    cases r with
    | fail => exact absurd hpos (by simp [SendResult.ret])
    | accept n =>
      have hret : SendResult.ret (.accept n) b.nLast = min (n : ℤ) b.nLast := rfl
      rw [hret] at hpos hne
      exact ⟨hsock, n, rfl, by omega, by omega⟩
  · rintro ⟨hsock, n, rfl, hpos, hlt⟩
    have hret : SendResult.ret (.accept n) b.nLast = n := ret_accept (by omega)
    refine ⟨⟨by omega, hsock⟩, ?_, ?_⟩
    · rw [hret]
      omega
    · rw [hret]
      omega

theorem write2socketMemcpy_ne_overlap_iff (h : b.WF) (sockfd : SOCKET) (r : SendResult) :
    b.write2socketMemcpy sockfd r ≠ .error .overlap ↔ b.Halves (.write2socket sockfd r) := by
  have hlen := h.length_bytes
  have hle := h.le
  have hlt := h.lt
  have hapart : ∀ n : ℕ, 0 < n → n < b.bytes.length →
      (Block.Apart 0 (SendResult.ret (.accept n) b.nLast)
        (int32 (b.nLast - SendResult.ret (.accept n) b.nLast)) ↔ b.bytes.length ≤ 2 * n) := by
    intro n hpos hlt
    rw [ret_accept (by omega), int32_eq (by omega) (by omega),
      Block.apart_zero_iff (by omega) (by omega)]
    omega
  rw [h.write2socketMemcpy_eq, Exec.ite_overlap_ne_iff, not_and, not_not, h.sendsPart_iff]
  constructor
  · rintro hs hsock n rfl hpos hlt
    exact (hapart n hpos hlt).mp (hs ⟨hsock, n, rfl, hpos, hlt⟩)
  · rintro hs ⟨hsock, n, rfl, hpos, hlt⟩
    exact (hapart n hpos hlt).mpr (hs hsock n rfl hpos hlt)

/-- A call overlaps no ranges exactly if it does not move more bytes than it removes. -/
theorem bufferCall_ne_overlap_iff (h : b.WF) (call : BufferCall) :
    b.bufferCall call ≠ .error .overlap ↔ b.Halves call := by
  cases call with
  | push pData nLen hmin hmax hData =>
    refine iff_of_true (fun hover => ?_) trivial
    rcases Fallible.bind_eq_error.mp hover with hpush | ⟨_, -, hret⟩
    · exact Exec.copying_ne_overlap _ hpush
    · exact absurd hret nofun
  | write2socket sockfd r =>
    rw [← h.write2socketMemcpy_ne_overlap_iff]
    refine not_congr (Fallible.bind_eq_error.trans (or_iff_left ?_))
    rintro ⟨_, -, hret⟩
    exact absurd hret nofun
  | read4socket r =>
    refine iff_of_true (fun hover => ?_) trivial
    rcases Fallible.bind_eq_error.mp hover with hread | ⟨_, -, hret⟩
    · exact Exec.copying_ne_overlap _ hread
    · exact absurd hret nofun
  | popFrontMsg =>
    have hbind : b.bufferCall .popFrontMsg ≠ .error .overlap ↔
        b.popFrontMsgMemcpy ≠ .error .overlap := by
      refine not_congr (Fallible.bind_eq_error.trans (or_iff_left ?_))
      rintro ⟨_, -, hret⟩
      exact absurd hret nofun
    rw [hbind]
    by_cases hc : netmsgFraming.Complete b.bytes
    · rw [h.popFrontMsgMemcpy_of_complete hc,
        h.popMemcpy_ne_overlap_iff (netmsgFraming_complete.mp hc).2]
      exact ⟨fun hhalf _ => hhalf, fun hhalf => hhalf hc⟩
    · rw [h.popFrontMsgMemcpy_of_not_complete hc]
      exact iff_of_true nofun fun hc' => absurd hc' hc

/-- A call that returns keeps the counters right. -/
theorem bufferCall (h : b.WF) {x : Unit} (hcall : b.bufferCall call = .ok (x, b')) : b'.WF := by
  cases call with
  | push pData nLen hmin hmax hData =>
    obtain ⟨⟨ok, b₁⟩, hpush, hret⟩ := Fallible.bind_eq_ok.mp hcall
    obtain ⟨-, rfl⟩ := Prod.mk.inj (Except.ok.inj hret)
    have hpush' := Exec.copying_eq_ok.mp hpush
    by_cases h0 : 0 ≤ nLen
    · exact (h.push_of_ok h0 hData hmax hpush').1
    · rw [h.push_of_neg hmin (by omega)] at hpush'
      exact absurd hpush' nofun
  | write2socket sockfd r =>
    obtain ⟨⟨ret, sent, b₁⟩, hwrite, hret⟩ := Fallible.bind_eq_ok.mp hcall
    obtain ⟨-, rfl⟩ := Prod.mk.inj (Except.ok.inj hret)
    rw [h.write2socketMemcpy_eq] at hwrite
    split at hwrite
    · exact absurd hwrite nofun
    · have hwrite' := Exec.copying_eq_ok.mp hwrite
      rcases h.write2socket_cases sockfd r with hw | hw | ⟨k, b₂, -, -, hw, hwf, -⟩
      all_goals
        obtain ⟨-, -, rfl⟩ := by simpa using hw.symm.trans hwrite'
        assumption
  | read4socket r =>
    obtain ⟨⟨ret, b₁⟩, hread, hret⟩ := Fallible.bind_eq_ok.mp hcall
    obtain ⟨-, rfl⟩ := Prod.mk.inj (Except.ok.inj hret)
    obtain ⟨ret', b₂, hread', hwf, -⟩ := h.read4socket_eq r
    obtain ⟨-, rfl⟩ := Prod.mk.inj (Except.ok.inj (hread'.symm.trans (Exec.copying_eq_ok.mp hread)))
    exact hwf
  | popFrontMsg =>
    obtain ⟨b₁, hpop, hret⟩ := Fallible.bind_eq_ok.mp hcall
    obtain ⟨-, rfl⟩ := Prod.mk.inj (Except.ok.inj hret)
    by_cases hc : netmsgFraming.Complete b.bytes
    · rw [h.popFrontMsgMemcpy_of_complete hc, popMemcpy_eq] at hpop
      split at hpop
      · exact absurd hpop nofun
      · obtain ⟨b₂, hpop', hwf, -⟩ := h.pop_eq (netmsgFraming_complete.mp hc).2
        obtain rfl := Except.ok.inj (hpop'.symm.trans (Exec.copying_eq_ok.mp hpop))
        exact hwf
    · rw [h.popFrontMsgMemcpy_of_not_complete hc] at hpop
      obtain rfl := Except.ok.inj hpop
      exact h

end WF

end CELLBuffer

/-- The ranges of the copies in a buffer. For every sequence of calls, with any bytes, any
outcome of `send` and `recv` and any frames, no call copies between ranges that overlap exactly
when no frame that is popped, and no partial send, is shorter than what stays behind it. -/
theorem compaction_apart_iff {b : CELLBuffer} (hb : b.WF) (calls : List BufferCall) :
    Calls.Meets CELLBuffer.bufferCall (fun b call => b.bufferCall call ≠ .error .overlap) b calls ↔
      Calls.Meets CELLBuffer.bufferCall CELLBuffer.Halves b calls :=
  Calls.meets_iff_meets (fun _ call hb => hb.bufferCall_ne_overlap_iff call)
    (fun _ _ _ _ hb hcall => hb.bufferCall hcall) calls hb

/-- Two frames of 4 bytes are received and popped. -/
theorem compaction_apart_frames :
    Calls.Meets CELLBuffer.bufferCall (fun b call => b.bufferCall call ≠ .error .overlap)
      (.new 64 fun _ => 0) [.read4socket (.avail [4, 0, 15, 0, 4, 0, 15, 0]), .popFrontMsg,
        .popFrontMsg] := by
  have hb : (CELLBuffer.new 64 fun _ => 0).WF := CELLBuffer.new_wf (by decide) (by decide) _
  refine (compaction_apart_iff hb _).mpr ⟨trivial, fun _ b₁ h₁ => ?_⟩
  obtain ⟨-, rfl⟩ := Prod.mk.inj (Except.ok.inj h₁)
  refine ⟨fun _ => by decide, fun _ b₂ h₂ => ?_⟩
  obtain ⟨-, rfl⟩ := Prod.mk.inj (Except.ok.inj h₂)
  exact ⟨fun _ => by decide, fun _ _ _ => trivial⟩

/-- A frame of 4 bytes is popped while a frame of 8 bytes is behind it. -/
theorem not_compaction_apart : ¬∀ (nSize : ℤ) (mem : ℕ → UInt8) (calls : List BufferCall),
    0 < nSize → nSize < 2147483648 →
    Calls.Meets CELLBuffer.bufferCall (fun b call => b.bufferCall call ≠ .error .overlap)
      (.new nSize mem) calls := by
  intro hall
  have hmeets := hall 64 (fun _ => 0)
    [.read4socket (.avail [4, 0, 15, 0, 8, 0, 15, 0, 0, 0, 0, 0]), .popFrontMsg] (by decide)
    (by decide)
  obtain ⟨-, hpop⟩ := hmeets
  exact (hpop () _ rfl).1 (by decide +kernel)

end CellNet
