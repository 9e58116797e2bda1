import CellNet.Cxx
import CellNet.FreeList
import CellNet.Machine
import CellNet.RawMemory

/-!
# The memory pool

`MemoryMgr` hands out memory from two `MemoryAlloc`s, for up to 64 and for up to 128 bytes. A
`MemoryAlloc` is one region that is cut into blocks, each a header and its payload; the free
blocks are linked through their headers. A block that is larger, or for which its pool has none
left, is a region of its own.

`memoryMgr` is the machine of the calls of `allocMem`, `freeMem` and `addRef`. Where `malloc` puts a
region is part of the action, and it keeps its promise that the region is fresh. `live` are the
blocks that were returned and not yet released.
-/

namespace CellNet

/-- `sizeof(MemoryBlock)`. -/
def sizeofMemoryBlock : ℕ :=
  32

/-- `MAX_MEMORY_SZIE`. -/
def MAX_MEMORY_SZIE : ℕ :=
  128

/-- The two `MemoryAlloc`s of a `MemoryMgr`. -/
inductive Pool
  /-- `_mem64`. -/
  | mem64
  /-- `_mem128`. -/
  | mem128
  deriving DecidableEq, Repr

/-- A `MemoryBlock`, the header of a block. -/
structure MemoryBlock where
  pAlloc : Option Pool
  pNext : Option ℕ
  nID : ℤ
  nRef : ℤ
  bPool : Bool
  deriving DecidableEq, Repr

/-- The memory of the process. -/
abbrev Memory :=
  RawMemory MemoryBlock sizeofMemoryBlock

/-- What `malloc` returns, for the buffer of a pool and for a block. -/
structure Mallocs where
  buf : ℕ
  block : ℕ
  deriving DecidableEq, Repr

/-! ## `MemoryAlloc` -/

/-- A `MemoryAlloc`. -/
structure MemoryAlloc where
  /-- `_pBuf`. -/
  pBuf : Option ℕ
  /-- `_pHeader`, the first free block. -/
  pHeader : Option ℕ
  /-- `_nSize`, the size of a payload. -/
  nSize : ℕ
  /-- `_nBlockNum`. -/
  nBlockNum : ℕ
  deriving DecidableEq, Repr

namespace MemoryAlloc

/-- The constructor of `MemoryAlloctor`, where a pointer has 8 bytes. -/
def new (nSize nBlockNum : ℕ) : MemoryAlloc :=
  ⟨none, none, nSize / 8 * 8 + if nSize % 8 ≠ 0 then 8 else 0, nBlockNum⟩

/-- One pass of the loop of `initMemory`, with the memory and `pTemp1`. -/
def linkBlock (owner : Pool) (buf realSize : ℕ) (x : Memory × ℕ) (n : ℕ) :
    Except MemFault (Memory × ℕ) := do
  let pTemp2 := buf + sizeT (n * realSize)
  let m ← x.1.write pTemp2 ⟨some owner, none, int32 n, 0, true⟩
  let pTemp1 ← m.read x.2
  let m ← m.write x.2 { pTemp1 with pNext := some pTemp2 }
  return (m, pTemp2)

/-- `initMemory`. -/
def initMemory (a : MemoryAlloc) (owner : Pool) (m : Memory) (buf : ℕ) :
    Except MemFault (MemoryAlloc × Memory) := do
  assert (a.pBuf = none)
  let realSize := sizeT (a.nSize + sizeofMemoryBlock)
  let bufSize := sizeT (a.nBlockNum * realSize)
  let m ← m.malloc buf bufSize
  let m ← m.write buf ⟨some owner, none, 0, 0, true⟩
  let (m, _) ← (List.range' 1 (a.nBlockNum - 1)).foldlM (linkBlock owner buf realSize) (m, buf)
  return ({ a with pBuf := some buf, pHeader := some buf }, m)

/-- `if (!_pBuf) initMemory();`. -/
def initIfNone (a : MemoryAlloc) (owner : Pool) (m : Memory) (buf : ℕ) :
    Except MemFault (MemoryAlloc × Memory) :=
  if a.pBuf = none then a.initMemory owner m buf else .ok (a, m)

/-- The header of a block that is not in a pool. -/
def ownBlock : MemoryBlock :=
  ⟨none, none, -1, 1, false⟩

/-- `allocMemory` behind `initMemory`, with the pointer it returns. -/
def takeBlock (a : MemoryAlloc) (m : Memory) (nSize block : ℕ) :
    Except MemFault (MemoryAlloc × Memory × ℕ) :=
  match a.pHeader with
  | none => do
    let m ← m.malloc block (sizeT (nSize + sizeofMemoryBlock))
    let m ← m.write block ownBlock
    return (a, m, block + sizeofMemoryBlock)
  | some pReturn => do
    let block ← m.read pReturn
    assert (block.nRef = 0)
    let m ← m.write pReturn { block with nRef := 1 }
    return ({ a with pHeader := block.pNext }, m, pReturn + sizeofMemoryBlock)

/-- `allocMemory`, with the pointer it returns. -/
def allocMemory (a : MemoryAlloc) (owner : Pool) (m : Memory) (nSize : ℕ) (sys : Mallocs) :
    Except MemFault (MemoryAlloc × Memory × ℕ) := do
  let (a, m) ← a.initIfNone owner m sys.buf
  a.takeBlock m nSize sys.block

/-- `freeMemory`. -/
def freeMemory (a : MemoryAlloc) (m : Memory) (pMem : ℕ) :
    Except MemFault (MemoryAlloc × Memory) := do
  let pBlock := pMem - sizeofMemoryBlock
  let block ← m.read pBlock
  assert (block.nRef = 1)
  if block.bPool then
    let nRef := int32 (block.nRef - 1)
    let m ← m.write pBlock { block with nRef }
    if nRef ≠ 0 then
      return (a, m)
    else
      let m ← m.write pBlock { block with nRef, pNext := a.pHeader }
      return ({ a with pHeader := some pBlock }, m)
  else
    let nRef := int32 (block.nRef - 1)
    let m ← m.write pBlock { block with nRef }
    if nRef ≠ 0 then
      return (a, m)
    else
      let m ← m.free pBlock
      return (a, m)

end MemoryAlloc

/-! ## `MemoryMgr` -/

/-- A `MemoryMgr`. -/
structure MemoryMgr where
  /-- `_mem64`. -/
  mem64 : MemoryAlloc
  /-- `_mem128`. -/
  mem128 : MemoryAlloc
  /-- `_szAlloc`. -/
  szAlloc : List (Option Pool)
  deriving DecidableEq, Repr

namespace MemoryMgr

/-- `init_szAlloc`. -/
def initSzAlloc (szAlloc : List (Option Pool)) (nBegin nEnd : ℕ) (pMemA : Pool) :
    List (Option Pool) :=
  (List.range' nBegin (nEnd + 1 - nBegin)).foldl (fun sz n => sz.set n (some pMemA)) szAlloc

/-- The constructor, for pools of these numbers of blocks. -/
def new (blockNum : Pool → ℕ) : MemoryMgr :=
  ⟨.new 64 (blockNum .mem64), .new 128 (blockNum .mem128),
    initSzAlloc (initSzAlloc (.replicate (MAX_MEMORY_SZIE + 1) none) 0 64 .mem64) 65 128 .mem128⟩

/-- The `MemoryAlloc` a pointer to one is for. -/
def get (g : MemoryMgr) : Pool → MemoryAlloc
  | .mem64 => g.mem64
  | .mem128 => g.mem128

/-- The `MemoryMgr` with the state `a` of one `MemoryAlloc`. -/
def set (g : MemoryMgr) (a : MemoryAlloc) : Pool → MemoryMgr
  | .mem64 => { g with mem64 := a }
  | .mem128 => { g with mem128 := a }

/-- `allocMem`, with the pointer it returns. -/
def allocMem (g : MemoryMgr) (m : Memory) (nSize : ℕ) (sys : Mallocs) :
    Except MemFault (MemoryMgr × Memory × ℕ) :=
  if nSize ≤ MAX_MEMORY_SZIE then
    match g.szAlloc[nSize]? with
    | some (some i) => do
      let (a, m, p) ← (g.get i).allocMemory i m nSize sys
      return (g.set a i, m, p)
    | some none => .error .nullDeref
    | none => .error .outOfBounds
  else do
    let m ← m.malloc sys.block (sizeT (nSize + sizeofMemoryBlock))
    let m ← m.write sys.block MemoryAlloc.ownBlock
    return (g, m, sys.block + sizeofMemoryBlock)

/-- `freeMem`. -/
def freeMem (g : MemoryMgr) (m : Memory) (pMem : ℕ) : Except MemFault (MemoryMgr × Memory) := do
  let pBlock := pMem - sizeofMemoryBlock
  let block ← m.read pBlock
  if block.bPool then
    match block.pAlloc with
    | some i =>
      let (a, m) ← (g.get i).freeMemory m pMem
      return (g.set a i, m)
    | none => .error .nullDeref
  else
    let nRef := int32 (block.nRef - 1)
    let m ← m.write pBlock { block with nRef }
    if nRef = 0 then
      let m ← m.free pBlock
      return (g, m)
    else
      return (g, m)

/-- `addRef`. -/
def addRef (m : Memory) (pMem : ℕ) : Except MemFault Memory := do
  let pBlock := pMem - sizeofMemoryBlock
  let block ← m.read pBlock
  m.write pBlock { block with nRef := int32 (block.nRef + 1) }

@[simp] theorem get_set (g : MemoryMgr) (a : MemoryAlloc) (i : Pool) : (g.set a i).get i = a := by
  cases i <;> rfl

theorem get_set_of_ne (g : MemoryMgr) (a : MemoryAlloc) {i j : Pool} (h : j ≠ i) :
    (g.set a i).get j = g.get j := by
  cases i <;> cases j <;> first | rfl | exact absurd rfl h

@[simp] theorem set_get (g : MemoryMgr) (i : Pool) : g.set (g.get i) i = g := by
  cases i <;> rfl

@[simp] theorem set_set (g : MemoryMgr) (a a' : MemoryAlloc) (i : Pool) :
    (g.set a i).set a' i = g.set a' i := by
  cases i <;> rfl

@[simp] theorem szAlloc_set (g : MemoryMgr) (a : MemoryAlloc) (i : Pool) :
    (g.set a i).szAlloc = g.szAlloc := by
  cases i <;> rfl

end MemoryMgr

/-! ## The calls -/

/-- A block that was returned and is not released. -/
structure LiveBlock where
  /-- Where its header is. -/
  pBlock : ℕ
  /-- The size that was asked for. -/
  nSize : ℕ
  /-- The pool it comes from. -/
  pool : Option Pool
  deriving DecidableEq, Repr

/-- The pointer that was returned. -/
def LiveBlock.pMem (b : LiveBlock) : ℕ :=
  b.pBlock + sizeofMemoryBlock

/-- A `MemoryMgr` and the memory it works on. -/
structure MgrState where
  mgr : MemoryMgr
  mem : Memory
  live : List LiveBlock

/-- A call of the `MemoryMgr`. -/
inductive MgrAct
  | allocMem (nSize : ℕ) (sys : Mallocs)
  | freeMem (pMem : ℕ)
  | addRef (pMem : ℕ)
  deriving DecidableEq, Repr

/-- The size that is asked for leaves room for the header. -/
def MgrAct.Fits : MgrAct → Prop
  | .allocMem nSize _ => nSize + sizeofMemoryBlock < 18446744073709551616
  | .freeMem _ | .addRef _ => True

instance : DecidablePred MgrAct.Fits
  | .allocMem .. => inferInstanceAs (Decidable (_ < _))
  | .freeMem _ | .addRef _ => isTrue trivial

namespace MgrState

/-- A new `MemoryMgr`. -/
def new (blockNum : Pool → ℕ) : MgrState :=
  ⟨.new blockNum, .empty, []⟩

/-- The block at `pBlock` is not referenced any more. -/
def released (m : Memory) (pBlock : ℕ) : Bool :=
  match m.headers pBlock with
  | some block => decide (block.nRef = 0)
  | none => true

/-- One call. What is freed or referenced once more is the pointer of a live block. -/
def act (s : MgrState) : MgrAct → Option (Except MemFault MgrState)
  | .allocMem nSize sys => some do
    let (mgr, mem, p) ← s.mgr.allocMem s.mem nSize sys
    let pBlock := p - sizeofMemoryBlock
    let pool := (mem.headers pBlock).bind MemoryBlock.pAlloc
    return ⟨mgr, mem, s.live ++ [⟨pBlock, nSize, pool⟩]⟩
  | .freeMem pMem =>
    if pMem ∈ s.live.map LiveBlock.pMem then some do
      let (mgr, mem) ← s.mgr.freeMem s.mem pMem
      let live := s.live.filter fun b => ¬(b.pMem = pMem ∧ released mem b.pBlock)
      return ⟨mgr, mem, live⟩
    else none
  | .addRef pMem =>
    if pMem ∈ s.live.map LiveBlock.pMem then some do
      let mem ← MemoryMgr.addRef s.mem pMem
      return { s with mem }
    else none

/-- The promises of the environment : a size that is asked for leaves room for the header, and
what `malloc` returns is fresh. -/
def Promise (s : MgrState) (a : MgrAct) : Prop :=
  a.Fits ∧ notFresh (s.act a) = false

instance (s : MgrState) (a : MgrAct) : Decidable (s.Promise a) :=
  inferInstanceAs (Decidable (_ ∧ _))

end MgrState

/-- A `MemoryMgr` with pools of these numbers of blocks, and its callers. -/
def memoryMgr (blockNum : Pool → ℕ) : Machine MgrState MgrAct MemFault :=
  .ofFn (· = .new blockNum) MgrState.Promise fun _ => MgrState.act

end CellNet
