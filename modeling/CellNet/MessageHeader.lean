import CellNet.Cxx
import CellNet.Framing
import Mathlib.Tactic.Linarith

/-!
# Messages on the wire

The message structs of `MessageHeader.hpp`, as the bytes they are in memory : every
message begins with its own length and its command, two little-endian 16-bit fields.
`dataLength` and `cmd` read them through a pointer to the message, so they are
undefined where the block behind the pointer is too short. `netmsgFraming` is the
framing these headers define.

The members a constructor does not set keep whatever the memory held, so they are
members of `NetmsgLogin` and `NetmsgLoginR` here.
-/

namespace CellNet

/-! ## Commands -/

/-- The `CMD` enumeration. -/
inductive CMD
  | login
  | loginResult
  | logout
  | logoutResult
  | newUserJoin
  | c2sHeart
  | s2cHeart
  | error
  deriving DecidableEq, Repr

namespace CMD

/-- The value of a command. -/
def code : CMD → ℕ
  | login => 10
  | loginResult => 11
  | logout => 12
  | logoutResult => 13
  | newUserJoin => 14
  | c2sHeart => 15
  | s2cHeart => 16
  | error => 17

/-- The command with the value `n`. -/
def ofCode : ℕ → Option CMD
  | 10 => some login
  | 11 => some loginResult
  | 12 => some logout
  | 13 => some logoutResult
  | 14 => some newUserJoin
  | 15 => some c2sHeart
  | 16 => some s2cHeart
  | 17 => some error
  | _ => none

@[simp] theorem ofCode_code (c : CMD) : ofCode c.code = some c := by
  cases c <;> rfl

theorem eq_code_of_ofCode {n : ℕ} {c : CMD} (h : ofCode n = some c) : n = c.code := by
  unfold ofCode at h
  split at h
  all_goals simp only [Option.some.injEq, reduceCtorEq] at h
  all_goals subst h
  all_goals rfl

theorem code_lt (c : CMD) : c.code < 65536 := by
  cases c <;> decide

end CMD

/-! ## The header -/

/-- `sizeof(netmsg_DataHeader)`. -/
def sizeofDataHeader : ℕ :=
  4

/-- `header->dataLength`, `header` pointing to the front of the block. -/
def dataLength (header : List UInt8) : Exec ℕ := do
  let bs ← Block.load header 0 2
  return ofLE bs

/-- `header->cmd`. -/
def cmd (header : List UInt8) : Exec ℕ := do
  let bs ← Block.load header 2 2
  return ofLE bs

/-- The bytes of a `netmsg_DataHeader`. -/
def dataHeaderBytes (len : ℕ) (c : CMD) : List UInt8 :=
  toLE 2 len ++ toLE 2 c.code

@[simp] theorem length_dataHeaderBytes (len : ℕ) (c : CMD) :
    (dataHeaderBytes len c).length = 4 := by
  simp [dataHeaderBytes]

/-- The length a block announces in its first two bytes. -/
def headerLen (bs : List UInt8) : ℕ :=
  ofLE (bs.take 2)

theorem headerLen_lt (bs : List UInt8) : headerLen bs < 65536 := by
  have h := ofLE_lt (bs.take 2)
  have hle : (bs.take 2).length ≤ 2 := List.length_take_le _ _
  calc headerLen bs < 256 ^ (bs.take 2).length := h
    _ ≤ 256 ^ 2 := Nat.pow_le_pow_right (by decide) hle

theorem headerLen_append {xs ys : List UInt8} (h : 2 ≤ xs.length) :
    headerLen (xs ++ ys) = headerLen xs := by
  rw [headerLen, headerLen, List.take_append_of_le_length h]

theorem headerLen_dataHeaderBytes {len : ℕ} (h : len < 65536) (c : CMD) (bs : List UInt8) :
    headerLen (dataHeaderBytes len c ++ bs) = len := by
  have htake : (dataHeaderBytes len c ++ bs).take 2 = toLE 2 len := by
    rw [dataHeaderBytes, List.append_assoc, List.take_left' (length_toLE 2 len)]
  rw [headerLen, htake, ofLE_toLE]
  exact Nat.mod_eq_of_lt h

theorem dataLength_eq {header : List UInt8} (h : 2 ≤ header.length) :
    dataLength header = .ok (headerLen header) := by
  have hload := Block.load_eq header 0 2 (by omega)
  simp only [Nat.cast_zero, Nat.cast_ofNat, List.drop_zero] at hload
  rw [dataLength, hload]
  rfl

theorem cmd_eq {header : List UInt8} (h : 4 ≤ header.length) :
    cmd header = .ok (ofLE ((header.drop 2).take 2)) := by
  have hload := Block.load_eq header 2 2 (by omega)
  simp only [Nat.cast_ofNat] at hload
  rw [cmd, hload]
  rfl

/-- The command is in the first four bytes. -/
theorem cmd_append {xs : List UInt8} (h : 4 ≤ xs.length) (ys : List UInt8) :
    cmd (xs ++ ys) = cmd xs := by
  have htake : ((xs ++ ys).drop 2).take 2 = (xs.drop 2).take 2 := by
    rw [List.drop_append_of_le_length (by omega),
      List.take_append_of_le_length (by rw [List.length_drop]; omega)]
  rw [cmd_eq h, cmd_eq (by rw [List.length_append]; omega), htake]

theorem cmd_dataHeaderBytes (len : ℕ) (c : CMD) (bs : List UInt8) :
    cmd (dataHeaderBytes len c ++ bs) = .ok c.code := by
  have hload := Block.load_eq (dataHeaderBytes len c ++ bs) 2 2 (by simp)
  have hdrop : ((dataHeaderBytes len c ++ bs).drop 2).take 2 = toLE 2 c.code := by
    rw [dataHeaderBytes, List.append_assoc, List.drop_left' (length_toLE 2 len),
      List.take_left' (length_toLE 2 c.code)]
  rw [hdrop] at hload
  rw [cmd]
  simp only [Nat.cast_ofNat] at hload
  rw [hload, Fallible.ok_bind, ofLE_toLE, Fallible.pure_eq, Nat.mod_eq_of_lt]
  exact c.code_lt

/-- The framing of the messages : a header of four bytes, then the announced length
counts the header. -/
def netmsgFraming : Framing UInt8 where
  frameLen bs := if sizeofDataHeader ≤ bs.length then some (headerLen bs) else none
  stable xs ys n h := by
    split at h
    · rename_i hlen
      have hle : sizeofDataHeader ≤ (xs ++ ys).length := by simp; omega
      rw [if_pos hle, ← h, headerLen_append]
      have : 4 ≤ xs.length := hlen
      omega
    · simp at h

theorem netmsgFraming_frameLen {bs : List UInt8} {n : ℕ} :
    netmsgFraming.frameLen bs = some n ↔ 4 ≤ bs.length ∧ headerLen bs = n := by
  show (if 4 ≤ bs.length then some (headerLen bs) else none) = some n ↔ _
  by_cases h : 4 ≤ bs.length <;> simp [h]

theorem netmsgFraming_complete {bs : List UInt8} :
    netmsgFraming.Complete bs ↔ 4 ≤ bs.length ∧ headerLen bs ≤ bs.length := by
  simp only [Framing.Complete, netmsgFraming_frameLen]
  constructor
  · rintro ⟨n, ⟨h4, rfl⟩, hle⟩
    exact ⟨h4, hle⟩
  · rintro ⟨h4, hle⟩
    exact ⟨_, ⟨h4, rfl⟩, hle⟩

theorem netmsgFraming_not_complete_nil : ¬netmsgFraming.Complete [] :=
  fun h => absurd (netmsgFraming_complete.mp h).1 (by decide)

/-! ## The login messages -/

/-- A `netmsg_Login`. -/
structure NetmsgLogin where
  userName : Vector UInt8 32
  PassWord : Vector UInt8 32
  data : Vector UInt8 28
  msgID : ℤ

/-- The bytes of a `netmsg_Login`, its header as the constructor sets it. -/
def NetmsgLogin.bytes (m : NetmsgLogin) : List UInt8 :=
  dataHeaderBytes 100 .login ++
    (m.userName.toList ++ m.PassWord.toList ++ m.data.toList ++ int32LE m.msgID)

/-- A `netmsg_LoginR`. -/
structure NetmsgLoginR where
  result : ℤ
  data : Vector UInt8 88
  msgID : ℤ

/-- The bytes of a `netmsg_LoginR`, its header as the constructor sets it. -/
def NetmsgLoginR.bytes (m : NetmsgLoginR) : List UInt8 :=
  dataHeaderBytes 100 .loginResult ++
    (int32LE m.result ++ m.data.toList ++ int32LE m.msgID)

/-- The bytes of a `netmsg_s2c_Heart`. -/
def netmsgS2cHeartBytes : List UInt8 :=
  dataHeaderBytes 4 .s2cHeart

/-- `login->msgID`, at the same place in a `netmsg_Login` and in a `netmsg_LoginR`. -/
def msgID (header : List UInt8) : Exec ℤ := do
  let bs ← Block.load header 96 4
  return ofInt32LE bs

theorem msgID_of_le {header : List UInt8} (h : 100 ≤ header.length) :
    msgID header = .ok (ofInt32LE ((header.drop 96).take 4)) := by
  have hload := Block.load_eq header 96 4 (by omega)
  simp only [Nat.cast_ofNat] at hload
  rw [msgID, hload]
  rfl

/-- The cast of a shorter message reads behind it. -/
theorem msgID_of_lt {header : List UInt8} (h : header.length < 100) :
    msgID header = .error .outOfBounds := by
  rw [msgID, Block.load, if_neg (by omega), Fallible.error_bind]

theorem msgID_append {xs : List UInt8} (h : 100 ≤ xs.length) (ys : List UInt8) :
    msgID (xs ++ ys) = msgID xs := by
  have htake : ((xs ++ ys).drop 96).take 4 = (xs.drop 96).take 4 := by
    rw [List.drop_append_of_le_length (by omega),
      List.take_append_of_le_length (by rw [List.length_drop]; omega)]
  rw [msgID_of_le h, msgID_of_le (by rw [List.length_append]; omega), htake]

@[simp] theorem NetmsgLogin.length_bytes (m : NetmsgLogin) : m.bytes.length = 100 := by
  simp [bytes]

@[simp] theorem NetmsgLoginR.length_bytes (m : NetmsgLoginR) : m.bytes.length = 100 := by
  simp [bytes]

/-- The bytes of an answer show its data. -/
theorem NetmsgLoginR.data_inj {m m' : NetmsgLoginR} (h : m.bytes = m'.bytes) :
    m.data = m'.data := by
  rw [bytes, bytes] at h
  obtain ⟨h, -⟩ := List.append_inj (List.append_cancel_left h) (by simp)
  exact Vector.toList_inj.mp (List.append_inj h (by simp)).2

/-- What a message of `len` bytes with the command `c` says in its header. -/
theorem header_of_eq {len : ℕ} (hlen : len < 65536) (c : CMD) {m body : List UInt8}
    (hm : m = dataHeaderBytes len c ++ body) (hl : m.length = len) :
    headerLen m = m.length ∧ netmsgFraming.IsFrame m ∧
      ∀ rest, CellNet.cmd (m ++ rest) = .ok c.code := by
  have hhead : headerLen m = m.length := by
    rw [hl, hm]
    exact headerLen_dataHeaderBytes hlen c body
  refine ⟨hhead, netmsgFraming_frameLen.mpr ⟨?_, hhead⟩, fun rest => ?_⟩
  · rw [hm]
    simp
  · rw [hm, List.append_assoc]
    exact cmd_dataHeaderBytes len c _

theorem NetmsgLogin.header_bytes (m : NetmsgLogin) : headerLen m.bytes = m.bytes.length ∧
    netmsgFraming.IsFrame m.bytes ∧ ∀ rest, CellNet.cmd (m.bytes ++ rest) = .ok 10 :=
  header_of_eq (by decide) .login rfl m.length_bytes

theorem NetmsgLoginR.header_bytes (m : NetmsgLoginR) : headerLen m.bytes = m.bytes.length ∧
    netmsgFraming.IsFrame m.bytes ∧ ∀ rest, CellNet.cmd (m.bytes ++ rest) = .ok 11 :=
  header_of_eq (by decide) .loginResult rfl m.length_bytes

/-- The id of a message of 100 bytes that ends in it. -/
theorem msgID_eq (pre bs : List UInt8) (hpre : pre.length = 96) (id : ℤ) :
    msgID (pre ++ int32LE id ++ bs) = .ok (int32 id) := by
  have hload := Block.load_eq (pre ++ int32LE id ++ bs) 96 4 (by simp [hpre]; omega)
  have hdrop : ((pre ++ int32LE id ++ bs).drop 96).take 4 = int32LE id := by
    rw [List.append_assoc, List.drop_left' hpre, List.take_left' (length_int32LE id)]
  rw [hdrop] at hload
  simp only [Nat.cast_ofNat] at hload
  rw [msgID, hload, Fallible.ok_bind, Fallible.pure_eq, ofInt32LE_int32LE]

theorem NetmsgLogin.msgID_bytes (m : NetmsgLogin) (bs : List UInt8) :
    CellNet.msgID (m.bytes ++ bs) = .ok (int32 m.msgID) := by
  have h := msgID_eq (dataHeaderBytes 100 .login ++
    (m.userName.toList ++ m.PassWord.toList ++ m.data.toList)) bs (by simp) m.msgID
  simpa [NetmsgLogin.bytes] using h

theorem NetmsgLoginR.msgID_bytes (m : NetmsgLoginR) (bs : List UInt8) :
    CellNet.msgID (m.bytes ++ bs) = .ok (int32 m.msgID) := by
  have h := msgID_eq (dataHeaderBytes 100 .loginResult ++
    (int32LE m.result ++ m.data.toList)) bs (by simp) m.msgID
  simpa [NetmsgLoginR.bytes] using h

end CellNet
