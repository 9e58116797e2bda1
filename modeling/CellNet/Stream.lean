import CellNet.Log
import CellNet.MessageHeader

/-!
# Byte streams over a message

`CELLStream` and its two subclasses : a read position and a write position in a block.
A scalar of `w` bytes is its bytes, in the order they have in memory, so integers and
floating point values of one width are the same here. Element counts and byte counts
are `size_t`, and `canRead`, `canWrite`, `pop` and `push` narrow them to `int`.

A `CELLReadStream` over a received message has the rest of the receive buffer behind
the message in its block, and only `nSize` keeps it inside the message.
-/

namespace CellNet

/-- A `CELLStream`, with the lines it logged. -/
structure CELLStream where
  pBuff : List UInt8
  nSize : ℤ
  nWritePos : ℤ
  nReadPos : ℤ
  log : List LogCall
  deriving DecidableEq, Repr

namespace CELLStream

/-- `data()`. -/
def data (s : CELLStream) : List UInt8 :=
  s.pBuff

/-- `length()`. -/
def length (s : CELLStream) : ℤ :=
  s.nWritePos

/-- `canRead`. -/
def canRead (s : CELLStream) (n : ℤ) : Bool :=
  decide (n ≤ int32 (s.nSize - s.nReadPos))

/-- `canWrite`. -/
def canWrite (s : CELLStream) (n : ℤ) : Bool :=
  decide (n ≤ int32 (s.nSize - s.nWritePos))

/-- `push`. -/
def push (s : CELLStream) (n : ℤ) : CELLStream :=
  { s with nWritePos := int32 (s.nWritePos + n) }

/-- `pop`. -/
def pop (s : CELLStream) (n : ℤ) : CELLStream :=
  { s with nReadPos := int32 (s.nReadPos + n) }

/-- `setWritePos`. -/
def setWritePos (s : CELLStream) (n : ℤ) : CELLStream :=
  { s with nWritePos := n }

/-- The stream after one log call. -/
def logged (s : CELLStream) (l : LogCall) : CELLStream :=
  { s with log := s.log ++ [l] }

/-- The value of a `size_t` computation. -/
def sizeTOf (n : ℕ) : ℕ :=
  n % 18446744073709551616

theorem sizeTOf_eq {n : ℕ} (h : n < 18446744073709551616) : sizeTOf n = n :=
  Nat.mod_eq_of_lt h

/-! ## Reading -/

/-- `Read<T>`, `T` of `w` bytes. The bytes read, if there were enough. -/
def read (s : CELLStream) (w : ℕ) (bOffset : Bool) : Exec (Option (List UInt8) × CELLStream) :=
  if s.canRead (int32 w) then do
    let bs ← Block.load s.pBuff s.nReadPos w
    return (some bs, if bOffset then s.pop (int32 w) else s)
  else
    return (none, s.logged .streamReadFailed)

/-- `onlyRead<T>`. -/
def onlyRead (s : CELLStream) (w : ℕ) : Exec (Option (List UInt8) × CELLStream) :=
  s.read w false

/-- `ReadInt8` to `ReadDouble` with their default `0`, for a scalar of `w` bytes. -/
def readScalar (s : CELLStream) (w : ℕ) : Exec (List UInt8 × CELLStream) := do
  let (bs, s) ← s.read w true
  return (bs.getD (toLE w 0), s)

/-- `ReadInt8`. -/
def readInt8 (s : CELLStream) : Exec (List UInt8 × CELLStream) :=
  s.readScalar 1

/-- `ReadInt16`. -/
def readInt16 (s : CELLStream) : Exec (List UInt8 × CELLStream) :=
  s.readScalar 2

/-- `ReadUInt16`. -/
def readUInt16 (s : CELLStream) : Exec (List UInt8 × CELLStream) :=
  s.readScalar 2

/-- `ReadInt32`. -/
def readInt32 (s : CELLStream) : Exec (List UInt8 × CELLStream) :=
  s.readScalar 4

/-- `ReadFloat`. -/
def readFloat (s : CELLStream) : Exec (List UInt8 × CELLStream) :=
  s.readScalar 4

/-- `ReadDouble`. -/
def readDouble (s : CELLStream) : Exec (List UInt8 × CELLStream) :=
  s.readScalar 8

/-- `ReadArray<T>`, `T` of `w` bytes, into the block `pArr` with room for `len`
elements. -/
def readArray (s : CELLStream) (w : ℕ) (pArr : List UInt8) (len : ℕ) :
    Exec (ℕ × List UInt8 × CELLStream) := do
  let (r, s) ← s.read 4 false
  let len1 := (r.map ofLE).getD 0
  let nLen := sizeTOf (len1 * w)
  if len1 ≤ len ∧ s.canRead (int32 (sizeTOf (nLen + 4))) then
    let s := s.pop 4
    let bs ← Block.load s.pBuff s.nReadPos nLen
    let pArr ← Block.store pArr 0 bs
    return (len1, pArr, s.pop (int32 nLen))
  else
    return (0, pArr, s.logged .streamReadArrayFailed)

/-- `ReadString`, in front of the string `str`. -/
def readString (s : CELLStream) (str : List UInt8) :
    Exec (Bool × List UInt8 × CELLStream) := do
  let (r, s) ← s.read 4 false
  let nLen := (r.map ofLE).getD 0
  if 0 < nLen ∧ s.canRead (int32 (sizeTOf (nLen + 4))) then
    let s := s.pop 4
    let bs ← Block.load s.pBuff s.nReadPos nLen
    return (true, bs ++ str, s.pop (int32 nLen))
  else
    return (false, str, s)

/-! ## Writing -/

/-- `Write<T>` of a value with the bytes `bs`. -/
def write (s : CELLStream) (bs : List UInt8) : Exec (Bool × CELLStream) :=
  if s.canWrite (int32 bs.length) then do
    let pBuff ← Block.store s.pBuff s.nWritePos bs
    return (true, { s with pBuff }.push (int32 bs.length))
  else
    return (false, s.logged .streamWriteFailed)

/-- `WriteArray<T>`, `T` of `w` bytes, of `len` elements at the front of the block
`pData`. -/
def writeArray (s : CELLStream) (w : ℕ) (pData : List UInt8) (len : ℕ) :
    Exec (Bool × CELLStream) := do
  let nLen := sizeTOf (w * len)
  if s.canWrite (int32 (sizeTOf (nLen + 4))) then
    let (_, s) ← s.write (toLE 4 len)
    let bs ← Block.load pData 0 nLen
    let pBuff ← Block.store s.pBuff s.nWritePos bs
    return (true, { s with pBuff }.push (int32 nLen))
  else
    return (false, s.logged .streamWriteArrayFailed)

/-! ## The subclasses -/

/-- `CELLReadStream(header)`, over the message at the front of the block. -/
def ofHeader (header : List UInt8) : Exec CELLStream := do
  let n ← dataLength header
  return ⟨header, n, n, 0, []⟩

/-- `CELLReadStream::getNetCmd`. -/
def getNetCmd (s : CELLStream) : Exec (ℕ × CELLStream) := do
  let (bs, s) ← s.read 2 true
  return ((bs.map ofLE).getD CMD.error.code, s)

/-- `CELLWriteStream(nSize)`, its new block holding what `mem` held. -/
def newWrite (nSize : ℤ) (mem : ℕ → UInt8) : Exec CELLStream := do
  let (_, s) ← CELLStream.write ⟨(List.range nSize.toNat).map mem, nSize, 0, 0, []⟩ (toLE 2 0)
  return s

/-- `CELLWriteStream::setNetCmd`. -/
def setNetCmd (s : CELLStream) (cmd : ℕ) : Exec CELLStream := do
  let (_, s) ← s.write (toLE 2 cmd)
  return s

/-- `CELLWriteStream::WriteString(str, len)`. The length becomes a `uint32_t`. -/
def writeString (s : CELLStream) (str : List UInt8) (len : ℤ) : Exec (Bool × CELLStream) :=
  s.writeArray 1 str (uint32 len)

/-- `CELLWriteStream::WriteString` of a `std::string`. -/
def writeStdString (s : CELLStream) (str : List UInt8) : Exec (Bool × CELLStream) :=
  s.writeArray 1 str (uint32 str.length)

/-- `CELLWriteStream::finsh`. -/
def finsh (s : CELLStream) : Exec CELLStream := do
  let pos := s.length
  let (_, s) ← (s.setWritePos 0).write (toLE 2 (pos % 65536).toNat)
  return s.setWritePos pos

end CELLStream

end CellNet
