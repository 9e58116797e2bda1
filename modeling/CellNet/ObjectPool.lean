import CellNet.Cxx
import CellNet.FreeList
import CellNet.Machine
import CellNet.RawMemory

/-!
# The object pool

`CELLObjectPoll` hands out memory for objects of one type from a buffer of `nPoolSize` blocks, each
a `NodeHeader` and an object. The free blocks are linked through their headers, and a block that
the list does not have is `new`.

The loop of `initPool` links the first block to each of the others in turn, as `pTemp1` stays where
it is. So behind it the first block is linked to the last one (`Linking`), and the blocks between
them are in no list.

`objectPool` is the machine of the calls of `allocObjMemory` and `freeObjMemory`. Where `new` puts a
block is part of the action.
-/

namespace CellNet

/-- `sizeof(NodeHeader)`. -/
def sizeofNodeHeader : ℕ :=
  24

/-- A `NodeHeader`. -/
structure NodeHeader where
  pNext : Option ℕ
  nID : ℤ
  nRef : ℤ
  nPool : Bool
  deriving DecidableEq, Repr

/-- The memory of the process. -/
abbrev NodeMemory :=
  RawMemory NodeHeader sizeofNodeHeader

/-- A `CELLObjectPoll`. -/
structure CELLObjectPoll where
  /-- `_pBuf`. -/
  pBuf : Option ℕ
  /-- `_pHeader`, the first free block. -/
  pHeader : Option ℕ
  deriving DecidableEq, Repr

namespace CELLObjectPoll

/-- The size of a block, as `initPool` and `allocObjMemory` compute it. -/
def realSize (sizeofType : ℕ) : ℕ :=
  sizeT (sizeofNodeHeader + sizeofType)

/-- The size of the buffer, as `initPool` computes it. -/
def bufSize (nPoolSize sizeofType : ℕ) : ℕ :=
  sizeT (nPoolSize * realSize sizeofType)

/-- `pTemp1->pNext = pTemp2;`. -/
def setNext (m : NodeMemory) (pTemp1 pTemp2 : ℕ) : Except MemFault NodeMemory := do
  let node ← m.read pTemp1
  m.write pTemp1 { node with pNext := some pTemp2 }

/-- One pass of the loop of `initPool`, which does not assign `pTemp1`. -/
def linkNode (pBuf realSize pTemp1 : ℕ) (m : NodeMemory) (n : ℕ) : Except MemFault NodeMemory := do
  let pTemp2 := pBuf + sizeT (n * realSize)
  let m ← m.write pTemp2 ⟨none, int32 n, 0, true⟩
  let m ← setNext m pTemp1 pTemp2
  setNext m pTemp1 pTemp2

/-- `initPool`. -/
def initPool (nPoolSize sizeofType : ℕ) (pool : CELLObjectPoll) (m : NodeMemory) (buf : ℕ) :
    Except MemFault (CELLObjectPoll × NodeMemory) := do
  assert (pool.pBuf = none)
  let m ← m.malloc buf (bufSize nPoolSize sizeofType)
  let m ← m.write buf ⟨none, 0, 0, true⟩
  let m ← (List.range' 1 (nPoolSize - 1)).foldlM (linkNode buf (realSize sizeofType) buf) m
  return (⟨some buf, some buf⟩, m)

/-- `allocObjMemory`, with the pointer it returns. -/
def allocObjMemory (sizeofType : ℕ) (pool : CELLObjectPoll) (m : NodeMemory) (block : ℕ) :
    Except MemFault (CELLObjectPoll × NodeMemory × ℕ) :=
  match pool.pHeader with
  | none => do
    let m ← m.malloc block (realSize sizeofType)
    let m ← m.write block ⟨none, -1, 1, false⟩
    return (pool, m, block + sizeofNodeHeader)
  | some pReturn => do
    let node ← m.read pReturn
    assert (node.nRef = 0)
    let m ← m.write pReturn { node with nRef := int32 (node.nRef + 1) }
    return ({ pool with pHeader := node.pNext }, m, pReturn + sizeofNodeHeader)

/-- `freeObjMemory`. -/
def freeObjMemory (pool : CELLObjectPoll) (m : NodeMemory) (pMem : ℕ) :
    Except MemFault (CELLObjectPoll × NodeMemory) := do
  let pBlock := pMem - sizeofNodeHeader
  let node ← m.read pBlock
  assert (node.nRef = 1)
  if node.nPool then
    let nRef := int32 (node.nRef - 1)
    let m ← m.write pBlock { node with nRef }
    if nRef ≠ 0 then
      return (pool, m)
    else
      let m ← m.write pBlock { node with nRef, pNext := pool.pHeader }
      return ({ pool with pHeader := some pBlock }, m)
  else
    let nRef := int32 (node.nRef - 1)
    let m ← m.write pBlock { node with nRef }
    if nRef ≠ 0 then
      return (pool, m)
    else
      let m ← m.free pBlock
      return (pool, m)

end CELLObjectPoll

/-! ## The calls -/

/-- A `CELLObjectPoll`, the memory it works on, and where the blocks are that it returned and that
are not freed. -/
structure PoolState where
  pool : CELLObjectPoll
  mem : NodeMemory
  live : List ℕ

/-- A call of the `CELLObjectPoll`. -/
inductive PoolAct
  | allocObjMemory (block : ℕ)
  | freeObjMemory (pMem : ℕ)
  deriving DecidableEq, Repr

namespace PoolState

/-- The constructor of the `CELLObjectPoll`, whose storage is zero before it. -/
def new (nPoolSize sizeofType buf : ℕ) : Except MemFault PoolState := do
  let (pool, mem) ← CELLObjectPoll.initPool nPoolSize sizeofType ⟨none, none⟩ .empty buf
  return ⟨pool, mem, []⟩

/-- One call. What is freed is the pointer of a live block. -/
def act (sizeofType : ℕ) (s : PoolState) : PoolAct → Option (Except MemFault PoolState)
  | .allocObjMemory block => some do
    let (pool, mem, p) ← s.pool.allocObjMemory sizeofType s.mem block
    return ⟨pool, mem, s.live ++ [p - sizeofNodeHeader]⟩
  | .freeObjMemory pMem =>
    if pMem ∈ s.live.map (· + sizeofNodeHeader) then some do
      let (pool, mem) ← s.pool.freeObjMemory s.mem pMem
      return ⟨pool, mem, s.live.filter (· + sizeofNodeHeader ≠ pMem)⟩
    else none

/-- The promise of the environment : what `new` returns is fresh. -/
def Promise (sizeofType : ℕ) (s : PoolState) (a : PoolAct) : Prop :=
  notFresh (s.act sizeofType a) = false

instance (sizeofType : ℕ) (s : PoolState) (a : PoolAct) : Decidable (s.Promise sizeofType a) :=
  inferInstanceAs (Decidable (_ = _))

end PoolState

/-- A pool of `nPoolSize` objects of a type of `sizeofType` bytes, and its callers. -/
def objectPool (nPoolSize sizeofType : ℕ) : Machine PoolState PoolAct MemFault :=
  .ofFn (fun s => ∃ buf, 0 < buf ∧ PoolState.new nPoolSize sizeofType buf = .ok s)
    (PoolState.Promise sizeofType) fun _ => PoolState.act sizeofType

/-! ## The list of `initPool` -/

/-- A block that is not used. -/
structure NodeHeader.Idle (node : NodeHeader) : Prop where
  nRef : node.nRef = 0
  nPool : node.nPool = true

namespace CELLObjectPoll

variable {nPoolSize sizeofType buf size last n : ℕ} {m m' : NodeMemory}

theorem sizeofNodeHeader_pos : 0 < sizeofNodeHeader := by
  decide

/-- The first block is linked to the block `last`, and this one to no other. -/
structure Linking (buf last : ℕ) (m : NodeMemory) : Prop where
  first : ∃ node, m.headers buf = some node ∧ node.Idle ∧ node.pNext = some last
  last : last ≠ buf → (Region.mk last sizeofNodeHeader).Apart ⟨buf, sizeofNodeHeader⟩ ∧
    ∃ node, m.headers last = some node ∧ node.Idle ∧ node.pNext = none

theorem setNext_eq_ok {p q : ℕ} : setNext m p q = .ok m' ↔
    ∃ node, m.headers p = some node ∧ m.Holds p ∧ m.put p { node with pNext := some q } = m' := by
  unfold setNext
  rw [Fallible.bind_eq_ok]
  exact exists_congr fun node => and_congr RawMemory.read_eq_ok RawMemory.write_eq_ok

/-- A pass of the loop links the first block to another one, wherever that is. -/
theorem linkNode_ok (hfirst : ∃ node, m.headers buf = some node ∧ node.Idle)
    (h : linkNode buf size buf m n = .ok m') :
    m'.regions = m.regions ∧ m.Holds (buf + sizeT (n * size)) ∧
      Linking buf (buf + sizeT (n * size)) m' := by
  obtain ⟨node₀, hnode₀, hidle₀⟩ := hfirst
  obtain ⟨m₁, hwrite, h⟩ := Fallible.bind_eq_ok.mp h
  obtain ⟨m₂, hnext, h⟩ := Fallible.bind_eq_ok.mp h
  obtain ⟨hholds, rfl⟩ := RawMemory.write_eq_ok.mp hwrite
  obtain ⟨node, hnode, -, rfl⟩ := setNext_eq_ok.mp hnext
  obtain ⟨node', hnode', -, rfl⟩ := setNext_eq_ok.mp h
  rw [RawMemory.headers_put_self] at hnode'
  obtain rfl := Option.some.inj hnode'
  rw [RawMemory.put_put]
  refine ⟨rfl, hholds, ⟨_, RawMemory.headers_put_self, ?_, rfl⟩, fun hne => ?_⟩
  · rcases RawMemory.headers_put_cases hnode with ⟨-, rfl⟩ | ⟨-, -, hnode⟩
    · exact ⟨rfl, rfl⟩
    · obtain rfl := Option.some.inj (hnode₀.symm.trans hnode)
      exact ⟨hidle₀.nRef, hidle₀.nPool⟩
  · obtain ⟨-, happ, -⟩ := (RawMemory.headers_put_cases hnode).resolve_left fun heq =>
      hne heq.1.symm
    refine ⟨happ.symm, ⟨none, int32 n, 0, true⟩, ?_, ⟨rfl, rfl⟩, rfl⟩
    rw [RawMemory.headers_put_of_apart sizeofNodeHeader_pos happ.symm]
    exact RawMemory.headers_put_self

/-- Behind the loop the first block is linked to the last one. -/
theorem linkNodes_ok (hfirst : ∃ node, m.headers buf = some node ∧ node.Idle)
    (h : (List.range' 1 n).foldlM (linkNode buf size buf) m = .ok m') :
    (n = 0 ∧ m' = m) ∨ (0 < n ∧ m'.regions = m.regions ∧ m.Holds (buf + sizeT (n * size)) ∧
      Linking buf (buf + sizeT (n * size)) m') := by
  induction n generalizing m' with
  | zero => exact .inl ⟨rfl, (Except.ok.inj h).symm⟩
  | succ n ih =>
    right
    rw [List.range'_1_concat, List.foldlM_append, Nat.add_comm 1 n] at h
    obtain ⟨m₁, hloop, h⟩ := Fallible.bind_eq_ok.mp h
    obtain ⟨m₂, hpass, hnil⟩ := Fallible.bind_eq_ok.mp h
    obtain rfl := Except.ok.inj hnil
    rcases ih hloop with ⟨-, rfl⟩ | ⟨-, hregions, -, hlinking⟩
    · exact ⟨Nat.succ_pos n, linkNode_ok hfirst hpass⟩
    · obtain ⟨node, hnode, hidle, -⟩ := hlinking.first
      obtain ⟨hregions', hholds, hlinking'⟩ := linkNode_ok ⟨node, hnode, hidle⟩ hpass
      refine ⟨Nat.succ_pos n, hregions'.trans hregions, ?_, hlinking'⟩
      unfold RawMemory.Holds at hholds ⊢
      rw [← hregions]
      exact hholds

theorem setNext_put_fits {p : ℕ} (hp : m.Holds p) (node : NodeHeader) (q : ℕ) :
    ∃ m', setNext (m.put p node) p q = .ok m' :=
  ⟨_, setNext_eq_ok.mpr ⟨node, RawMemory.headers_put_self, hp, rfl⟩⟩

/-- A pass of the loop returns, if the blocks are in the buffer. -/
theorem linkNode_fits {total : ℕ} (hsize : sizeofNodeHeader ≤ size)
    (hfit : total * size < 18446744073709551616) (hbuf : ⟨buf, total * size⟩ ∈ m.regions)
    (hfirst : ∃ node, m.headers buf = some node) (hn : n < total) (hpos : 0 < n) :
    ∃ m', linkNode buf size buf m n = .ok m' := by
  obtain ⟨node, hnode⟩ := hfirst
  have hplace : sizeT ((n : ℤ) * (size : ℤ)) = n * size := by
    rw [← Nat.cast_mul, sizeT_natCast ((Nat.mul_le_mul_right size hn.le).trans_lt hfit)]
  have hholds : ∀ k < total, m.Holds (buf + k * size) := fun k hk =>
    ⟨_, hbuf, (Region.within_of_le hsize).trans (Region.row_within hk)⟩
  have hfirst : m.Holds buf := by
    have hzero := hholds 0 (by omega)
    rwa [Nat.zero_mul, Nat.add_zero] at hzero
  have happ : (Region.mk buf sizeofNodeHeader).Apart ⟨buf + n * size, sizeofNodeHeader⟩ := by
    have hrow : (Region.mk (buf + 0 * size) sizeofNodeHeader).Apart
        ⟨buf + n * size, sizeofNodeHeader⟩ := Region.row_apart hsize (by omega)
    rwa [Nat.zero_mul, Nat.add_zero] at hrow
  let m₁ : NodeMemory := m.put (buf + n * size) ⟨none, int32 n, 0, true⟩
  have hnode₁ : m₁.headers buf = some node :=
    (RawMemory.headers_put_of_apart sizeofNodeHeader_pos happ).trans hnode
  have hfirst₁ : m₁.Holds buf := hfirst
  obtain ⟨m', hm'⟩ := setNext_put_fits hfirst₁ { node with pNext := some (buf + n * size) }
    (buf + n * size)
  refine ⟨m', ?_⟩
  simp only [linkNode, hplace]
  rw [RawMemory.write_eq (hholds n hn), Fallible.ok_bind,
    setNext_eq_ok.mpr ⟨node, hnode₁, hfirst, rfl⟩]
  exact hm'

/-- The loop returns, if the blocks are in the buffer. -/
theorem linkNodes_fits {total : ℕ} (hsize : sizeofNodeHeader ≤ size)
    (hfit : total * size < 18446744073709551616) (hbuf : ⟨buf, total * size⟩ ∈ m.regions)
    (hfirst : ∃ node, m.headers buf = some node ∧ node.Idle) (hn : n < total) :
    ∃ m', (List.range' 1 n).foldlM (linkNode buf size buf) m = .ok m' := by
  induction n with
  | zero => exact ⟨m, rfl⟩
  | succ n ih =>
    obtain ⟨m₁, hloop⟩ := ih (by omega)
    have hlinked : m₁.regions = m.regions ∧ ∃ node, m₁.headers buf = some node := by
      rcases linkNodes_ok hfirst hloop with ⟨-, rfl⟩ | ⟨-, hregions, -, hlinking⟩
      · exact ⟨rfl, hfirst.imp fun _ => And.left⟩
      · exact ⟨hregions, hlinking.first.imp fun _ => And.left⟩
    obtain ⟨m', hm'⟩ := linkNode_fits hsize hfit (hlinked.1 ▸ hbuf) hlinked.2 hn (Nat.succ_pos n)
    refine ⟨m', ?_⟩
    rw [List.range'_1_concat, List.foldlM_append, hloop, Fallible.ok_bind, List.foldlM_cons,
      Nat.add_comm 1 n, hm']
    rfl

/-- The size of a block, header and object. -/
def blockSize (sizeofType : ℕ) : ℕ :=
  sizeofNodeHeader + sizeofType

/-- The pool has blocks, and the size of its buffer is a `size_t`. -/
structure Fits (nPoolSize sizeofType : ℕ) : Prop where
  pos : 1 ≤ nPoolSize
  size : nPoolSize * blockSize sizeofType < 18446744073709551616

theorem Fits.realSize_eq (h : Fits nPoolSize sizeofType) :
    realSize sizeofType = blockSize sizeofType := by
  have hle : 1 * blockSize sizeofType ≤ nPoolSize * blockSize sizeofType :=
    Nat.mul_le_mul_right _ h.pos
  have hlt := h.size
  rw [realSize, ← Nat.cast_add, sizeT_natCast]
  · rfl
  · unfold blockSize at hle hlt
    omega

theorem Fits.bufSize_eq (h : Fits nPoolSize sizeofType) :
    bufSize nPoolSize sizeofType = nPoolSize * blockSize sizeofType := by
  rw [bufSize, h.realSize_eq, ← Nat.cast_mul, sizeT_natCast h.size]

/-- Where the last block is. -/
def lastBlock (nPoolSize sizeofType buf : ℕ) : ℕ :=
  buf + sizeT ((nPoolSize - 1 : ℕ) * realSize sizeofType)

end CELLObjectPoll

namespace PoolState

open CELLObjectPoll

variable {nPoolSize sizeofType buf : ℕ} {s : PoolState}

/-- The state behind the constructor. -/
structure Constructed (nPoolSize sizeofType buf : ℕ) (s : PoolState) : Prop where
  pool : s.pool = ⟨some buf, some buf⟩
  live : s.live = []
  regions : s.mem.regions = [⟨buf, bufSize nPoolSize sizeofType⟩]
  holds : s.mem.Holds buf
  one : nPoolSize ≤ 1 → ∃ node, s.mem.headers buf = some node ∧ node.Idle ∧ node.pNext = none
  more : 2 ≤ nPoolSize → s.mem.Holds (lastBlock nPoolSize sizeofType buf) ∧
    Linking buf (lastBlock nPoolSize sizeofType buf) s.mem

theorem new_ok (h : new nPoolSize sizeofType buf = .ok s) :
    Constructed nPoolSize sizeofType buf s := by
  obtain ⟨⟨pool, mem⟩, hinit, hs⟩ := Fallible.bind_eq_ok.mp h
  obtain rfl := Except.ok.inj hs
  obtain ⟨-, -, hinit⟩ := Fallible.bind_eq_ok.mp hinit
  obtain ⟨m, hmalloc, hinit⟩ := Fallible.bind_eq_ok.mp hinit
  obtain ⟨m₁, hwrite, hinit⟩ := Fallible.bind_eq_ok.mp hinit
  obtain ⟨m₂, hloop, hpool⟩ := Fallible.bind_eq_ok.mp hinit
  obtain ⟨rfl, rfl⟩ := Prod.mk.inj (Except.ok.inj hpool)
  obtain ⟨hholds, rfl⟩ := RawMemory.write_eq_ok.mp hwrite
  obtain ⟨-, rfl⟩ := RawMemory.malloc_eq_ok.mp hmalloc
  have hfirst : ((RawMemory.empty.alloc ⟨buf, bufSize nPoolSize sizeofType⟩).put buf
      ⟨none, 0, 0, true⟩ : NodeMemory).headers buf = some ⟨none, 0, 0, true⟩ :=
    RawMemory.headers_put_self
  rcases linkNodes_ok ⟨_, hfirst, rfl, rfl⟩ hloop with ⟨hn, rfl⟩ | ⟨hn, hregions, hlast, hlinking⟩
  · exact ⟨rfl, rfl, rfl, hholds, fun _ => ⟨_, hfirst, ⟨rfl, rfl⟩, rfl⟩, fun hle => by omega⟩
  · refine ⟨rfl, rfl, hregions, ?_, fun hle => by omega, fun _ => ⟨?_, hlinking⟩⟩
    · exact (RawMemory.holds_congr hregions).mpr hholds
    · exact (RawMemory.holds_congr hregions).mpr hlast

/-- The constructor returns, if the size of the buffer is a `size_t`. -/
theorem new_fits (h : Fits nPoolSize sizeofType) (hbuf : 0 < buf) :
    ∃ s, new nPoolSize sizeofType buf = .ok s := by
  let r : Region := ⟨buf, nPoolSize * blockSize sizeofType⟩
  let m : NodeMemory := RawMemory.empty.alloc r
  have hpos : 0 < nPoolSize := h.pos
  have hsize : sizeofNodeHeader ≤ blockSize sizeofType := Nat.le_add_right _ _
  have hmem : r ∈ m.regions := List.mem_append_right _ (List.mem_singleton_self r)
  have hholds : m.Holds buf := by
    refine ⟨r, hmem, Region.within_of_le (hsize.trans ?_)⟩
    exact Nat.le_mul_of_pos_left _ hpos
  obtain ⟨m', hm'⟩ := linkNodes_fits (m := m.put buf ⟨none, 0, 0, true⟩) hsize h.size hmem
    ⟨_, RawMemory.headers_put_self, rfl, rfl⟩ (Nat.sub_lt hpos Nat.one_pos)
  refine ⟨⟨⟨some buf, some buf⟩, m', []⟩, ?_⟩
  rw [new, initPool, assert_of rfl, h.bufSize_eq, h.realSize_eq, Fallible.ok_bind,
    RawMemory.malloc_eq (RawMemory.fresh_empty hbuf), Fallible.ok_bind, RawMemory.write_eq hholds,
    Fallible.ok_bind, hm']
  rfl

end PoolState

end CellNet
