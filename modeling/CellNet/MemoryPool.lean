import CellNet.MemoryInit

/-!
# The blocks of the memory pool

`Inv` is what holds between two calls of a `MemoryMgr` : the blocks of its pools and those with a
region of their own are apart, the header of a live block says where it is from, and the free
list of each pool has its blocks that are not live, all with `nRef` 0.

There is one lemma for each way the state can change : the buffer of a pool is made
(`Inv.init`), a free block is taken out (`Inv.pop`) or a region for a block is made
(`Inv.allocOwn`), the count of a live block changes (`Inv.count`), and a block is put back
(`Inv.push`) or its region is freed (`Inv.release`).
-/

namespace CellNet

/-- The size of a payload. -/
def Pool.nSize : Pool → ℕ
  | .mem64 => 64
  | .mem128 => 128

/-- The size of a block with its header. -/
def Pool.realSize (i : Pool) : ℕ :=
  i.nSize + sizeofMemoryBlock

theorem Pool.sizeofMemoryBlock_le (i : Pool) : sizeofMemoryBlock ≤ i.realSize :=
  Nat.le_add_left _ _

/-- The pools have blocks, and the size of each buffer is a `size_t`. -/
def PoolsFit (blockNum : Pool → ℕ) : Prop :=
  ∀ i, 1 ≤ blockNum i ∧ blockNum i * i.realSize < 18446744073709551616

/-- The region of the block, header and payload. -/
def LiveBlock.region (b : LiveBlock) : Region :=
  ⟨b.pBlock, b.nSize + sizeofMemoryBlock⟩

/-- The header of a block from `pool`. -/
structure MemoryBlock.From (block : MemoryBlock) (pool : Option Pool) : Prop where
  pAlloc : block.pAlloc = pool
  bPool : block.bPool = pool.isSome

namespace MgrState

variable {blockNum : Pool → ℕ} {s : MgrState} {i j : Pool} {b c : LiveBlock} {x y : ℕ}

/-- Where the live blocks are. -/
def liveSet (s : MgrState) : Set ℕ :=
  {x | ∃ b ∈ s.live, b.pBlock = x}

/-- Where the blocks of a pool are, if its buffer is made. -/
def starts (blockNum : Pool → ℕ) (s : MgrState) (i : Pool) : Set ℕ :=
  {x | ∃ buf, (s.mgr.get i).pBuf = some buf ∧ ∃ k < blockNum i, x = buf + k * i.realSize}

/-- The regions of all blocks. -/
def blocks (blockNum : Pool → ℕ) (s : MgrState) : Set Region :=
  {r | (∃ i, ∃ x ∈ starts blockNum s i, r = ⟨x, i.realSize⟩) ∨
    ∃ b ∈ s.live, b.pool = none ∧ r = b.region}

/-- What holds between two calls. -/
structure Inv (blockNum : Pool → ℕ) (s : MgrState) : Prop where
  fit : PoolsFit blockNum
  params : ∀ i, (s.mgr.get i).nSize = i.nSize ∧ (s.mgr.get i).nBlockNum = blockNum i
  szAlloc : s.mgr.szAlloc = (MemoryMgr.new blockNum).szAlloc
  bases : s.mem.Bases
  disjoint : Region.Disjoint (blocks blockNum s)
  bufs : ∀ i buf, (s.mgr.get i).pBuf = some buf → ⟨buf, blockNum i * i.realSize⟩ ∈ s.mem.regions
  own : ∀ b ∈ s.live, b.pool = none →
    b.region ∈ s.mem.regions ∧ ∀ i, b.pBlock ∉ starts blockNum s i
  nodup : (s.live.map LiveBlock.pBlock).Nodup
  pooled : ∀ b ∈ s.live, ∀ i, b.pool = some i → b.pBlock ∈ starts blockNum s i ∧ b.nSize ≤ i.nSize
  header : ∀ b ∈ s.live, ∃ block, s.mem.headers b.pBlock = some block ∧ block.From b.pool
  free : ∀ i, FreeListed (s.mem.view MemoryBlock.pNext) (s.mgr.get i).pHeader
    (starts blockNum s i) s.liveSet
  idle : ∀ i, ∀ x ∈ starts blockNum s i, x ∉ s.liveSet →
    ∃ block, s.mem.headers x = some block ∧ block.Idle i

theorem Inv.new (hfit : PoolsFit blockNum) : Inv blockNum (.new blockNum) := by
  have hstarts : ∀ i x, x ∉ starts blockNum (.new blockNum) i := by
    rintro i x ⟨buf, hbuf, -⟩
    cases i <;> exact absurd hbuf nofun
  refine ⟨hfit, fun i => ?_, rfl, List.nodup_nil, ?_, fun i buf hbuf => ?_, fun b hb => ?_,
    List.nodup_nil, fun b hb => ?_, fun b hb => ?_, fun i => ?_, fun i x hx => ?_⟩
  · cases i <;> exact ⟨rfl, rfl⟩
  · rintro r (⟨i, x, hx, -⟩ | ⟨b, hb, -⟩)
    · exact absurd hx (hstarts i x)
    · exact absurd hb List.not_mem_nil
  · cases i <;> exact absurd hbuf nofun
  · exact absurd hb List.not_mem_nil
  · exact absurd hb List.not_mem_nil
  · exact absurd hb List.not_mem_nil
  · refine ⟨[], by cases i <;> rfl, fun x => ?_⟩
    exact iff_of_false List.not_mem_nil fun hx => hstarts i x hx.1
  · exact absurd hx (hstarts i x)

/-! ## Where the blocks are -/

theorem mem_liveSet (hb : b ∈ s.live) : b.pBlock ∈ s.liveSet :=
  ⟨b, hb, rfl⟩

/-- A block that begins at `x`, with room for a header. -/
def IsBlock (blockNum : Pool → ℕ) (s : MgrState) (x : ℕ) : Prop :=
  ∃ size, sizeofMemoryBlock ≤ size ∧ ⟨x, size⟩ ∈ blocks blockNum s

theorem isBlock_of_start (hx : x ∈ starts blockNum s i) : IsBlock blockNum s x :=
  ⟨i.realSize, i.sizeofMemoryBlock_le, .inl ⟨i, x, hx, rfl⟩⟩

namespace Inv

variable (h : Inv blockNum s)
include h

theorem eq_of_pBlock (hb : b ∈ s.live) (hc : c ∈ s.live) (heq : b.pBlock = c.pBlock) : b = c :=
  List.inj_on_of_nodup_map h.nodup hb hc heq

/-- A live block has the size that was asked for. -/
theorem block_of_live (hb : b ∈ s.live) :
    ∃ size, b.nSize + sizeofMemoryBlock ≤ size ∧ ⟨b.pBlock, size⟩ ∈ blocks blockNum s := by
  cases hpool : b.pool with
  | none => exact ⟨_, le_refl _, .inr ⟨b, hb, hpool, rfl⟩⟩
  | some i =>
    obtain ⟨hstart, hle⟩ := h.pooled b hb i hpool
    exact ⟨i.realSize, Nat.add_le_add_right hle _, .inl ⟨i, _, hstart, rfl⟩⟩

theorem isBlock_of_live (hb : b ∈ s.live) : IsBlock blockNum s b.pBlock := by
  obtain ⟨size, hle, hmem⟩ := h.block_of_live hb
  exact ⟨size, (Nat.le_add_left _ _).trans hle, hmem⟩

/-- Each block is inside a region. -/
theorem within {r : Region} (hr : r ∈ blocks blockNum s) : ∃ t ∈ s.mem.regions, r.Within t := by
  rcases hr with ⟨i, x, ⟨buf, hbuf, k, hk, rfl⟩, rfl⟩ | ⟨b, hb, hpool, rfl⟩
  · exact ⟨_, h.bufs i buf hbuf, Region.row_within hk⟩
  · exact ⟨_, (h.own b hb hpool).1, .refl _⟩

theorem holds (hx : IsBlock blockNum s x) : s.mem.Holds x := by
  obtain ⟨size, hle, hmem⟩ := hx
  obtain ⟨t, ht, hwithin⟩ := h.within hmem
  exact ⟨t, ht, (Region.within_of_le hle).trans hwithin⟩

/-- The headers of two blocks are apart. -/
theorem apart (hx : IsBlock blockNum s x) (hy : IsBlock blockNum s y) (hne : x ≠ y) :
    (Region.mk x sizeofMemoryBlock).Apart ⟨y, sizeofMemoryBlock⟩ := by
  obtain ⟨n, hn, hx⟩ := hx
  obtain ⟨k, hk, hy⟩ := hy
  have happ := (h.disjoint _ hx _ hy).resolve_left fun heq => hne (Region.mk.inj heq).1
  exact ((happ.within (Region.within_of_le hn)).symm.within (Region.within_of_le hk)).symm

/-- A write to the header of one block leaves the others alone. -/
theorem headers_put (hx : IsBlock blockNum s x) (hy : IsBlock blockNum s y) (hne : x ≠ y)
    (block : MemoryBlock) : (s.mem.put y block).headers x = s.mem.headers x :=
  RawMemory.headers_put_of_apart MemoryAlloc.sizeofMemoryBlock_pos (h.apart hx hy hne)

/-- A block is apart from a region that is fresh. -/
theorem apart_of_fresh {r t : Region} (hr : s.mem.Fresh r) (ht : t ∈ blocks blockNum s) :
    t.Apart r := by
  obtain ⟨u, hu, hwithin⟩ := h.within ht
  exact (hr.2 u hu).1.symm.within hwithin

theorem header_apart_of_fresh {r : Region} (hr : s.mem.Fresh r) (hx : IsBlock blockNum s x) :
    (Region.mk x sizeofMemoryBlock).Apart r := by
  obtain ⟨size, hle, hmem⟩ := hx
  exact (h.apart_of_fresh hr hmem).within (Region.within_of_le hle)

end Inv

/-! ## The live blocks -/

theorem mem_liveSet_append {g : MemoryMgr} {m : Memory} :
    y ∈ (MgrState.mk g m (s.live ++ [b])).liveSet ↔ y ∈ s.liveSet ∨ y = b.pBlock := by
  constructor
  · rintro ⟨c, hc, rfl⟩
    rcases List.mem_append.mp hc with hc | hc
    · exact .inl (mem_liveSet hc)
    · exact .inr (congrArg LiveBlock.pBlock (List.mem_singleton.mp hc))
  · rintro (⟨c, hc, rfl⟩ | rfl)
    · exact ⟨c, List.mem_append_left _ hc, rfl⟩
    · exact ⟨b, List.mem_append_right _ (List.mem_singleton_self b), rfl⟩

theorem nodup_append (h : (s.live.map LiveBlock.pBlock).Nodup) (hb : b.pBlock ∉ s.liveSet) :
    ((s.live ++ [b]).map LiveBlock.pBlock).Nodup := by
  rw [List.map_append, List.map_singleton, ← List.concat_eq_append]
  refine List.Nodup.concat (fun hmem => hb ?_) h
  exact List.mem_map.mp hmem

theorem mem_live_filter : c ∈ s.live.filter (· ≠ b) ↔ c ∈ s.live ∧ c ≠ b :=
  mem_filter_ne

theorem Inv.mem_liveSet_filter (h : Inv blockNum s) (hb : b ∈ s.live) {g : MemoryMgr} {m : Memory} :
    y ∈ (MgrState.mk g m (s.live.filter (· ≠ b))).liveSet ↔ y ∈ s.liveSet ∧ y ≠ b.pBlock := by
  constructor
  · rintro ⟨c, hc, rfl⟩
    obtain ⟨hc, hne⟩ := mem_live_filter.mp hc
    exact ⟨mem_liveSet hc, fun heq => hne (h.eq_of_pBlock hc hb heq)⟩
  · rintro ⟨⟨c, hc, rfl⟩, hne⟩
    exact ⟨c, mem_live_filter.mpr ⟨hc, fun heq => hne (heq ▸ rfl)⟩, rfl⟩

/-! ## The ways the state changes -/

/-- A `MemoryAlloc` that keeps its buffer and its sizes. -/
structure KeepsBuf (a a' : MemoryAlloc) : Prop where
  pBuf : a'.pBuf = a.pBuf
  nSize : a'.nSize = a.nSize
  nBlockNum : a'.nBlockNum = a.nBlockNum

theorem starts_congr {s' : MgrState} (h : (s'.mgr.get i).pBuf = (s.mgr.get i).pBuf) :
    starts blockNum s' i = starts blockNum s i := by
  unfold starts
  rw [h]

/-- The `MemoryMgr` with another free list of one pool. -/
theorem keepsBuf_set {g : MemoryMgr} {a : MemoryAlloc} (h : KeepsBuf (g.get i) a) (j : Pool) :
    KeepsBuf (g.get j) ((g.set a i).get j) := by
  by_cases hij : j = i
  · subst hij
    rw [MemoryMgr.get_set]
    exact h
  · rw [MemoryMgr.get_set_of_ne g a hij]
    exact ⟨rfl, rfl, rfl⟩

theorem blocks_congr {s' : MgrState} (h : ∀ i, starts blockNum s' i = starts blockNum s i)
    (hlive : ∀ b, b.pool = none → (b ∈ s'.live ↔ b ∈ s.live)) :
    blocks blockNum s' = blocks blockNum s := by
  unfold blocks
  simp only [h]
  ext r
  refine or_congr_right (exists_congr fun b =>
    ⟨fun ⟨hb, hpool, hr⟩ => ?_, fun ⟨hb, hpool, hr⟩ => ?_⟩)
  · exact ⟨(hlive b hpool).mp hb, hpool, hr⟩
  · exact ⟨(hlive b hpool).mpr hb, hpool, hr⟩

namespace Inv

variable (h : Inv blockNum s)
include h

/-- The header of a live block changes, but not where the block is from. -/
theorem count (hb : b ∈ s.live) {block : MemoryBlock} (hfrom : block.From b.pool) :
    Inv blockNum { s with mem := s.mem.put b.pBlock block } := by
  have hother : ∀ i, ∀ x ∈ starts blockNum s i, x ∉ s.liveSet →
      (s.mem.put b.pBlock block).headers x = s.mem.headers x := fun i x hx hfree =>
    h.headers_put (isBlock_of_start hx) (h.isBlock_of_live hb)
      (fun heq => hfree (heq ▸ mem_liveSet hb)) block
  refine ⟨h.fit, h.params, h.szAlloc, h.bases, h.disjoint, h.bufs, h.own, h.nodup, h.pooled,
    fun c hc => ?_, fun i => ?_, fun i x hx hfree => ?_⟩
  · by_cases heq : c.pBlock = b.pBlock
    · obtain rfl := h.eq_of_pBlock hc hb heq
      exact ⟨block, RawMemory.headers_put_self, hfrom⟩
    · obtain ⟨block', hheader, hfrom⟩ := h.header c hc
      have hput := h.headers_put (h.isBlock_of_live hc) (h.isBlock_of_live hb) heq block
      exact ⟨block', hput.trans hheader, hfrom⟩
  · exact (h.free i).congr (fun x hx hfree => RawMemory.view_congr _ (hother i x hx hfree))
      fun _ _ => Iff.rfl
  · obtain ⟨block', hheader, hidle⟩ := h.idle i x hx hfree
    exact ⟨block', (hother i x hx hfree).trans hheader, hidle⟩

/-- A block is of one pool only. -/
theorem pool_unique (hi : x ∈ starts blockNum s i) (hj : x ∈ starts blockNum s j) : i = j := by
  have hcases := h.disjoint ⟨x, i.realSize⟩ (.inl ⟨i, x, hi, rfl⟩) ⟨x, j.realSize⟩
    (.inl ⟨j, x, hj, rfl⟩)
  rcases hcases with heq | happ
  · have hsize := (Region.mk.inj heq).2
    cases i <;> cases j <;> first | rfl | exact absurd hsize (by decide)
  · have hpos : ∀ i : Pool, 0 < i.realSize := fun i => by cases i <;> decide
    exact absurd rfl (happ.base_ne (hpos i) (hpos j))

/-- The first free block of a pool is taken out. -/
theorem pop (hx : (s.mgr.get i).pHeader = some x) :
    x ∈ starts blockNum s i ∧ x ∉ s.liveSet ∧
    ∃ block, s.mem.headers x = some block ∧ block.Idle i ∧ ∀ nSize ≤ i.nSize,
      Inv blockNum ⟨s.mgr.set { s.mgr.get i with pHeader := block.pNext } i,
        s.mem.put x { block with nRef := 1 }, s.live ++ [⟨x, nSize, some i⟩]⟩ := by
  have hfree := h.free i
  rw [hx] at hfree
  obtain ⟨hstart, hxlive, r, hr, hrest⟩ := hfree.pop fun y _ =>
    (Iff.rfl : y ∈ {y | y ∈ s.liveSet ∨ y = x} ↔ y ∈ s.liveSet ∨ y = x)
  obtain ⟨block, hheader, hidle⟩ := h.idle i x hstart hxlive
  obtain rfl : block.pNext = r := Option.some.inj ((RawMemory.view_eq _ hheader).symm.trans hr)
  refine ⟨hstart, hxlive, block, hheader, hidle, fun nSize hle => ?_⟩
  set s' : MgrState := ⟨s.mgr.set { s.mgr.get i with pHeader := block.pNext } i,
    s.mem.put x { block with nRef := 1 }, s.live ++ [⟨x, nSize, some i⟩]⟩ with hs'
  have hbuf : ∀ j, KeepsBuf (s.mgr.get j) (s'.mgr.get j) := keepsBuf_set ⟨rfl, rfl, rfl⟩
  have hstarts : ∀ j, starts blockNum s' j = starts blockNum s j := fun j =>
    starts_congr (hbuf j).pBuf
  have hlive : ∀ c, c ∈ s'.live ↔ c ∈ s.live ∨ c = ⟨x, nSize, some i⟩ := fun _ => mem_snoc
  have hliveSet : ∀ y, y ∈ s'.liveSet ↔ y ∈ s.liveSet ∨ y = x := fun y => mem_liveSet_append
  have hblocks : blocks blockNum s' = blocks blockNum s := by
    refine blocks_congr hstarts fun c hpool => (hlive c).trans (or_iff_left ?_)
    rintro rfl
    exact absurd hpool nofun
  have hput : ∀ y, IsBlock blockNum s y → y ≠ x → s'.mem.headers y = s.mem.headers y :=
    fun y hy hne => h.headers_put hy (isBlock_of_start hstart) hne _
  refine ⟨h.fit, fun j => ?_, ?_, h.bases, ?_, fun j buf hj => ?_, fun c hc hpool => ?_,
    nodup_append h.nodup hxlive, fun c hc j hpool => ?_, fun c hc => ?_, fun j => ?_,
    fun j y hy hylive => ?_⟩
  · rw [(hbuf j).nSize, (hbuf j).nBlockNum]
    exact h.params j
  · rw [hs', MemoryMgr.szAlloc_set]
    exact h.szAlloc
  · rw [hblocks]
    exact h.disjoint
  · exact h.bufs j buf ((hbuf j).pBuf ▸ hj)
  · rcases (hlive c).mp hc with hc | rfl
    · exact ⟨(h.own c hc hpool).1, fun j => hstarts j ▸ (h.own c hc hpool).2 j⟩
    · exact absurd hpool nofun
  · rw [hstarts]
    rcases (hlive c).mp hc with hc | rfl
    · exact h.pooled c hc j hpool
    · obtain rfl := Option.some.inj hpool
      exact ⟨hstart, hle⟩
  · rcases (hlive c).mp hc with hc | rfl
    · obtain ⟨block', hheader', hfrom⟩ := h.header c hc
      have hne : c.pBlock ≠ x := fun heq => hxlive (heq ▸ mem_liveSet hc)
      exact ⟨block', (hput _ (h.isBlock_of_live hc) hne).trans hheader', hfrom⟩
    · exact ⟨_, RawMemory.headers_put_self, hidle.pAlloc, hidle.bPool⟩
  · rw [hstarts]
    by_cases hij : j = i
    · subst hij
      rw [hs', MemoryMgr.get_set]
      refine hrest.congr (fun y hy hfree => ?_) fun y _ => hliveSet y
      exact RawMemory.view_congr _ (hput y (isBlock_of_start hy) fun heq => hfree (.inr heq))
    · rw [hs', MemoryMgr.get_set_of_ne _ _ hij]
      have hne : ∀ y ∈ starts blockNum s j, y ≠ x := by
        rintro y hy rfl
        exact hij (h.pool_unique hy hstart)
      refine (h.free j).congr (fun y hy _ => ?_) fun y hy => ?_
      · exact RawMemory.view_congr _ (hput y (isBlock_of_start hy) (hne y hy))
      · exact (hliveSet y).trans (or_iff_left (hne y hy))
  · rw [hstarts] at hy
    have hnot := not_or.mp ((hliveSet y).not.mp hylive)
    obtain ⟨block', hheader', hidle'⟩ := h.idle j y hy hnot.1
    exact ⟨block', (hput y (isBlock_of_start hy) hnot.2).trans hheader', hidle'⟩

/-- A live block whose count is 0 is put back into its pool. -/
theorem push (hb : b ∈ s.live) (hpool : b.pool = some i) {block : MemoryBlock}
    (hidle : block.Idle i) :
    Inv blockNum ⟨s.mgr.set { s.mgr.get i with pHeader := some b.pBlock } i,
      s.mem.put b.pBlock { block with pNext := (s.mgr.get i).pHeader },
      s.live.filter (· ≠ b)⟩ := by
  obtain ⟨hstart, -⟩ := h.pooled b hb i hpool
  set s' : MgrState := ⟨s.mgr.set { s.mgr.get i with pHeader := some b.pBlock } i,
    s.mem.put b.pBlock { block with pNext := (s.mgr.get i).pHeader },
    s.live.filter (· ≠ b)⟩ with hs'
  have hbuf : ∀ j, KeepsBuf (s.mgr.get j) (s'.mgr.get j) := keepsBuf_set ⟨rfl, rfl, rfl⟩
  have hstarts : ∀ j, starts blockNum s' j = starts blockNum s j := fun j =>
    starts_congr (hbuf j).pBuf
  have hlive : ∀ c, c ∈ s'.live ↔ c ∈ s.live ∧ c ≠ b := fun c => mem_live_filter
  have hliveSet : ∀ y, y ∈ s'.liveSet ↔ y ∈ s.liveSet ∧ y ≠ b.pBlock := fun y =>
    h.mem_liveSet_filter hb
  have hblocks : blocks blockNum s' = blocks blockNum s := by
    refine blocks_congr hstarts fun c hnone => (hlive c).trans (and_iff_left ?_)
    rintro rfl
    exact absurd (hnone.symm.trans hpool) nofun
  have hput : ∀ y, IsBlock blockNum s y → y ≠ b.pBlock → s'.mem.headers y = s.mem.headers y :=
    fun y hy hne => h.headers_put hy (isBlock_of_start hstart) hne _
  refine ⟨h.fit, fun j => ?_, ?_, h.bases, ?_, fun j buf hj => ?_,
    fun c hc hnone => ?_, h.nodup.sublist (List.filter_sublist.map _),
    fun c hc j hj => ?_, fun c hc => ?_, fun j => ?_, fun j y hy hylive => ?_⟩
  · rw [(hbuf j).nSize, (hbuf j).nBlockNum]
    exact h.params j
  · rw [hs', MemoryMgr.szAlloc_set]
    exact h.szAlloc
  · rw [hblocks]
    exact h.disjoint
  · exact h.bufs j buf ((hbuf j).pBuf ▸ hj)
  · obtain ⟨hregion, hstart⟩ := h.own c ((hlive c).mp hc).1 hnone
    exact ⟨hregion, fun j => hstarts j ▸ hstart j⟩
  · rw [hstarts]
    exact h.pooled c ((hlive c).mp hc).1 j hj
  · obtain ⟨hc, hne⟩ := (hlive c).mp hc
    obtain ⟨block', hheader', hfrom⟩ := h.header c hc
    have hneBlock : c.pBlock ≠ b.pBlock := fun heq => hne (h.eq_of_pBlock hc hb heq)
    exact ⟨block', (hput _ (h.isBlock_of_live hc) hneBlock).trans hheader', hfrom⟩
  · rw [hstarts]
    by_cases hij : j = i
    · subst hij
      rw [hs', MemoryMgr.get_set]
      refine (h.free j).push hstart (mem_liveSet hb) ?_ (fun y hy hfree => ?_) fun y _ => hliveSet y
      · exact RawMemory.view_eq _ RawMemory.headers_put_self
      · refine RawMemory.view_congr _ (hput y (isBlock_of_start hy) ?_)
        rintro rfl
        exact hfree (mem_liveSet hb)
    · rw [hs', MemoryMgr.get_set_of_ne _ _ hij]
      have hne : ∀ y ∈ starts blockNum s j, y ≠ b.pBlock := by
        rintro y hy rfl
        exact hij (h.pool_unique hy hstart)
      refine (h.free j).congr (fun y hy _ => ?_) fun y hy => ?_
      · exact RawMemory.view_congr _ (hput y (isBlock_of_start hy) (hne y hy))
      · exact (hliveSet y).trans (and_iff_left (hne y hy))
  · rw [hstarts] at hy
    by_cases heq : y = b.pBlock
    · subst heq
      obtain rfl := h.pool_unique hy hstart
      exact ⟨_, RawMemory.headers_put_self, hidle.pAlloc, hidle.nRef, hidle.bPool⟩
    · have hfree : y ∉ s.liveSet := fun hy' => hylive ((hliveSet y).mpr ⟨hy', heq⟩)
      obtain ⟨block', hheader', hidle'⟩ := h.idle j y hy hfree
      exact ⟨block', (hput y (isBlock_of_start hy) heq).trans hheader', hidle'⟩

/-- The region of a live block of its own is freed. -/
theorem release (hb : b ∈ s.live) (hpool : b.pool = none) :
    Inv blockNum ⟨s.mgr, s.mem.release b.region, s.live.filter (· ≠ b)⟩ := by
  set s' : MgrState := ⟨s.mgr, s.mem.release b.region, s.live.filter (· ≠ b)⟩ with hs'
  have hlive : ∀ c, c ∈ s'.live ↔ c ∈ s.live ∧ c ≠ b := fun c => mem_live_filter
  have hliveSet : ∀ y, y ∈ s'.liveSet ↔ y ∈ s.liveSet ∧ y ≠ b.pBlock := fun y =>
    h.mem_liveSet_filter hb
  obtain ⟨hown, hstart⟩ := h.own b hb hpool
  have hregion : b.region ∈ blocks blockNum s := .inr ⟨b, hb, hpool, rfl⟩
  have hsub : blocks blockNum s' ⊆ blocks blockNum s := by
    rintro r (hr | ⟨c, hc, hnone, rfl⟩)
    · exact .inl hr
    · exact .inr ⟨c, ((hlive c).mp hc).1, hnone, rfl⟩
  have hne : ∀ i, ∀ y ∈ starts blockNum s i, y ≠ b.pBlock := by
    rintro i y hy rfl
    exact hstart i hy
  have hheaders : ∀ y, IsBlock blockNum s y → y ≠ b.pBlock →
      s'.mem.headers y = s.mem.headers y := by
    rintro y ⟨size, hle, hy⟩ hne
    have happ := (h.disjoint _ hy _ hregion).resolve_left fun heq => hne (Region.mk.inj heq).1
    exact RawMemory.headers_release_of_apart (happ.within (Region.within_of_le hle))
  -- the other regions stay, as their bases are others
  have hregions : ∀ r ∈ s.mem.regions, r.base ≠ b.pBlock → r ∈ s'.mem.regions := fun r hr hbase =>
    h.bases.mem_release.mpr ⟨fun heq => hbase (congrArg Region.base heq), hr⟩
  refine ⟨h.fit, h.params, h.szAlloc, h.bases.release _, h.disjoint.mono hsub, fun j buf hj => ?_,
    fun c hc hnone => ?_, h.nodup.sublist (List.filter_sublist.map _),
    fun c hc j hj => h.pooled c ((hlive c).mp hc).1 j hj, fun c hc => ?_, fun j => ?_,
    fun j y hy hylive => ?_⟩
  · refine hregions _ (h.bufs j buf hj) (hne j buf ⟨buf, hj, 0, (h.fit j).1, ?_⟩)
    rw [Nat.zero_mul, Nat.add_zero]
  · obtain ⟨hc, hcb⟩ := (hlive c).mp hc
    obtain ⟨hcown, hcstart⟩ := h.own c hc hnone
    exact ⟨hregions _ hcown fun heq => hcb (h.eq_of_pBlock hc hb heq), hcstart⟩
  · obtain ⟨hc, hcb⟩ := (hlive c).mp hc
    obtain ⟨block, hheader, hfrom⟩ := h.header c hc
    have hneBlock : c.pBlock ≠ b.pBlock := fun heq => hcb (h.eq_of_pBlock hc hb heq)
    exact ⟨block, (hheaders _ (h.isBlock_of_live hc) hneBlock).trans hheader, hfrom⟩
  · refine (h.free j).congr (fun y hy _ => ?_) fun y hy => ?_
    · exact RawMemory.view_congr _ (hheaders y (isBlock_of_start hy) (hne j y hy))
    · exact (hliveSet y).trans (and_iff_left (hne j y hy))
  · have hfree : y ∉ s.liveSet := fun hy' => hylive ((hliveSet y).mpr ⟨hy', hne j y hy⟩)
    obtain ⟨block, hheader, hidle⟩ := h.idle j y hy hfree
    exact ⟨block, (hheaders y (isBlock_of_start hy) (hne j y hy)).trans hheader, hidle⟩

/-- A region is made for a block. -/
theorem allocOwn {p nSize : ℕ} (hr : s.mem.Fresh ⟨p, nSize + sizeofMemoryBlock⟩) :
    Inv blockNum ⟨s.mgr,
      (s.mem.alloc ⟨p, nSize + sizeofMemoryBlock⟩).put p MemoryAlloc.ownBlock,
      s.live ++ [⟨p, nSize, none⟩]⟩ := by
  set r : Region := ⟨p, nSize + sizeofMemoryBlock⟩ with hrdef
  set b : LiveBlock := ⟨p, nSize, none⟩ with hb
  set s' : MgrState := ⟨s.mgr, (s.mem.alloc r).put p MemoryAlloc.ownBlock, s.live ++ [b]⟩ with hs'
  have hlive : ∀ c, c ∈ s'.live ↔ c ∈ s.live ∨ c = b := fun _ => mem_snoc
  have hliveSet : ∀ y, y ∈ s'.liveSet ↔ y ∈ s.liveSet ∨ y = p := fun y => mem_liveSet_append
  have hpos : 0 < r.size := Nat.lt_add_left _ MemoryAlloc.sizeofMemoryBlock_pos
  have hwithin : (Region.mk p sizeofMemoryBlock).Within r :=
    Region.within_of_le (Nat.le_add_left _ _)
  -- no block begins in the new region
  have hne : ∀ y, IsBlock blockNum s y → y ≠ p := by
    rintro y hy rfl
    exact absurd rfl
      ((h.header_apart_of_fresh hr hy).base_ne MemoryAlloc.sizeofMemoryBlock_pos hpos)
  have hheaders : ∀ y, IsBlock blockNum s y → s'.mem.headers y = s.mem.headers y := by
    intro y hy
    have happ := h.header_apart_of_fresh hr hy
    rw [hs', RawMemory.headers_put_of_apart MemoryAlloc.sizeofMemoryBlock_pos
      (happ.symm.within hwithin).symm]
    exact RawMemory.headers_alloc_of_apart happ
  have hregions : ∀ t, t ∈ s.mem.regions → t ∈ s'.mem.regions := fun t ht =>
    List.mem_append_left _ ht
  have hpblock : p ∉ s.liveSet := by
    rintro ⟨c, hc, rfl⟩
    exact hne _ (h.isBlock_of_live hc) rfl
  have hblocks : blocks blockNum s' ⊆ blocks blockNum s ∪ {r} := by
    rintro t (ht | ⟨c, hc, hnone, rfl⟩)
    · exact .inl (.inl ht)
    · rcases (hlive c).mp hc with hc | rfl
      · exact .inl (.inr ⟨c, hc, hnone, rfl⟩)
      · exact .inr rfl
  refine ⟨h.fit, h.params, h.szAlloc, h.bases.alloc hr, ?_,
    fun j buf hj => hregions _ (h.bufs j buf hj), fun c hc hnone => ?_,
    nodup_append h.nodup hpblock, fun c hc j hj => ?_, fun c hc => ?_, fun j => ?_,
    fun j y hy hylive => ?_⟩
  · refine (h.disjoint.union (Region.disjoint_singleton r) fun t ht u hu => ?_).mono hblocks
    obtain rfl := hu
    exact h.apart_of_fresh hr ht
  · rcases (hlive c).mp hc with hc | rfl
    · exact ⟨hregions _ (h.own c hc hnone).1, (h.own c hc hnone).2⟩
    · exact ⟨List.mem_append_right _ (List.mem_singleton_self r),
        fun j hstart => hne p (isBlock_of_start hstart) rfl⟩
  · rcases (hlive c).mp hc with hc | rfl
    · exact h.pooled c hc j hj
    · exact absurd hj nofun
  · rcases (hlive c).mp hc with hc | rfl
    · obtain ⟨block, hheader, hfrom⟩ := h.header c hc
      exact ⟨block, (hheaders _ (h.isBlock_of_live hc)).trans hheader, hfrom⟩
    · exact ⟨_, RawMemory.headers_put_self, rfl, rfl⟩
  · refine (h.free j).congr (fun y hy _ => ?_) fun y hy => ?_
    · exact RawMemory.view_congr _ (hheaders y (isBlock_of_start hy))
    · exact (hliveSet y).trans (or_iff_left (hne y (isBlock_of_start hy)))
  · have hfree : y ∉ s.liveSet := fun hy' => hylive ((hliveSet y).mpr (.inl hy'))
    obtain ⟨block, hheader, hidle⟩ := h.idle j y hy hfree
    exact ⟨block, (hheaders y (isBlock_of_start hy)).trans hheader, hidle⟩

theorem realSize_get (i : Pool) : (s.mgr.get i).realSize = i.realSize := by
  rw [MemoryAlloc.realSize, (h.params i).1]
  rfl

end Inv

/-! ## A new buffer -/

/-- The state in which the buffer of the pool `i` is made. -/
def made (s : MgrState) (i : Pool) (buf : ℕ) (m : Memory) : MgrState :=
  ⟨s.mgr.set { s.mgr.get i with pBuf := some buf, pHeader := some buf } i, m, s.live⟩

section Made

variable {buf : ℕ} {m : Memory}

theorem get_made : (s.made i buf m).mgr.get i =
    { s.mgr.get i with pBuf := some buf, pHeader := some buf } :=
  MemoryMgr.get_set ..

theorem get_made_of_ne (hij : j ≠ i) : (s.made i buf m).mgr.get j = s.mgr.get j :=
  MemoryMgr.get_set_of_ne _ _ hij

theorem starts_made_of_ne (hij : j ≠ i) :
    starts blockNum (s.made i buf m) j = starts blockNum s j :=
  starts_congr (congrArg MemoryAlloc.pBuf (get_made_of_ne hij))

theorem mem_starts_made :
    y ∈ starts blockNum (s.made i buf m) i ↔ ∃ k < blockNum i, y = buf + k * i.realSize := by
  constructor
  · rintro ⟨buf', hbuf', k, hk, rfl⟩
    rw [get_made] at hbuf'
    obtain rfl := Option.some.inj hbuf'
    exact ⟨k, hk, rfl⟩
  · rintro ⟨k, hk, rfl⟩
    exact ⟨buf, by rw [get_made], k, hk, rfl⟩

theorem blocks_made : blocks blockNum (s.made i buf m) ⊆ blocks blockNum s ∪
    {t | ∃ k < blockNum i, t = ⟨buf + k * i.realSize, i.realSize⟩} := by
  rintro t (⟨j, y, hy, rfl⟩ | hown)
  · by_cases hij : j = i
    · subst hij
      obtain ⟨k, hk, rfl⟩ := mem_starts_made.mp hy
      exact .inr ⟨k, hk, rfl⟩
    · exact .inl (.inl ⟨j, y, starts_made_of_ne hij ▸ hy, rfl⟩)
  · exact .inl (.inr hown)

namespace Inv

variable (h : Inv blockNum s)
include h

/-- No block is in a buffer that is fresh. -/
theorem not_mem_starts_made (hr : s.mem.Fresh ⟨buf, blockNum i * i.realSize⟩)
    (hy : IsBlock blockNum s y) : y ∉ starts blockNum (s.made i buf m) i := by
  intro hstart
  obtain ⟨k, hk, rfl⟩ := mem_starts_made.mp hstart
  have happ := ((h.header_apart_of_fresh hr hy).symm.within
    (MemoryAlloc.header_within i.sizeofMemoryBlock_le hk)).symm
  exact absurd rfl
    (happ.base_ne MemoryAlloc.sizeofMemoryBlock_pos MemoryAlloc.sizeofMemoryBlock_pos)

theorem disjoint_made (hr : s.mem.Fresh ⟨buf, blockNum i * i.realSize⟩) :
    Region.Disjoint (blocks blockNum (s.made i buf m)) := by
  refine (h.disjoint.union ?_ ?_).mono blocks_made
  · rintro t ⟨k, -, rfl⟩ u ⟨l, -, rfl⟩
    by_cases hkl : k = l
    · exact .inl (hkl ▸ rfl)
    · exact .inr (Region.row_apart (le_refl _) hkl)
  · rintro t ht u ⟨k, hk, rfl⟩
    exact ((h.apart_of_fresh hr ht).symm.within (Region.row_within hk)).symm

/-- The blocks of the new buffer are all free. -/
theorem free_made (hr : s.mem.Fresh ⟨buf, blockNum i * i.realSize⟩)
    (hlinked : LinkedFrom (m.view MemoryBlock.pNext) (some buf)
      ((List.range (blockNum i)).map fun k => buf + k * i.realSize)) :
    FreeListed (m.view MemoryBlock.pNext) (some buf) (starts blockNum (s.made i buf m) i)
      s.liveSet := by
  refine ⟨_, hlinked, fun y => ?_⟩
  rw [List.mem_map]
  constructor
  · rintro ⟨k, hk, rfl⟩
    have hstart : buf + k * i.realSize ∈ starts blockNum (s.made i buf m) i :=
      mem_starts_made.mpr ⟨k, List.mem_range.mp hk, rfl⟩
    refine ⟨hstart, ?_⟩
    rintro ⟨c, hc, heq⟩
    rw [← heq] at hstart
    exact h.not_mem_starts_made hr (h.isBlock_of_live hc) hstart
  · rintro ⟨hy, -⟩
    obtain ⟨k, hk, rfl⟩ := mem_starts_made.mp hy
    exact ⟨k, List.mem_range.mpr hk, rfl⟩

/-- The buffer of a pool is made. -/
theorem init (hi : (s.mgr.get i).pBuf = none) (hr : s.mem.Fresh ⟨buf, blockNum i * i.realSize⟩)
    (hinit : (s.mgr.get i).Initialised i s.mem m buf) : Inv blockNum (s.made i buf m) := by
  obtain ⟨hregions, hother, hlinked, hidle⟩ := hinit
  rw [(h.params i).2, h.realSize_get] at hregions hother hlinked
  simp only [(h.params i).2, h.realSize_get] at hidle
  have hheaders : ∀ y, IsBlock blockNum s y → m.headers y = s.mem.headers y := fun y hy =>
    hother y (h.header_apart_of_fresh hr hy)
  refine ⟨h.fit, fun j => ?_, ?_, ?_, h.disjoint_made hr, fun j buf' hj => ?_,
    fun c hc hpool => ⟨?_, fun j => ?_⟩, h.nodup, fun c hc j hj => ?_, fun c hc => ?_, fun j => ?_,
    fun j y hy hylive => ?_⟩
  · by_cases hij : j = i
    · subst hij
      rw [get_made]
      exact h.params j
    · rw [get_made_of_ne hij]
      exact h.params j
  · exact (MemoryMgr.szAlloc_set ..).trans h.szAlloc
  · have hbases := h.bases.alloc hr
    unfold RawMemory.Bases at hbases ⊢
    rw [made, hregions]
    exact hbases
  · rw [made, hregions]
    by_cases hij : j = i
    · subst hij
      rw [get_made] at hj
      obtain rfl := Option.some.inj hj
      exact List.mem_append_right _ (List.mem_singleton_self _)
    · rw [get_made_of_ne hij] at hj
      exact List.mem_append_left _ (h.bufs j buf' hj)
  · rw [made, hregions]
    exact List.mem_append_left _ (h.own c hc hpool).1
  · by_cases hij : j = i
    · subst hij
      exact h.not_mem_starts_made hr (h.isBlock_of_live hc)
    · rw [starts_made_of_ne hij]
      exact (h.own c hc hpool).2 j
  · obtain ⟨hstart, hle⟩ := h.pooled c hc j hj
    have hij : j ≠ i := by
      rintro rfl
      obtain ⟨buf', hbuf', -⟩ := hstart
      exact absurd (hi.symm.trans hbuf') nofun
    rw [starts_made_of_ne hij]
    exact ⟨hstart, hle⟩
  · obtain ⟨block, hheader, hfrom⟩ := h.header c hc
    exact ⟨block, (hheaders _ (h.isBlock_of_live hc)).trans hheader, hfrom⟩
  · by_cases hij : j = i
    · subst hij
      rw [get_made]
      exact h.free_made hr hlinked
    · rw [get_made_of_ne hij, starts_made_of_ne hij]
      refine (h.free j).congr (fun y hy _ => ?_) fun _ _ => Iff.rfl
      exact RawMemory.view_congr _ (hheaders y (isBlock_of_start hy))
  · by_cases hij : j = i
    · subst hij
      obtain ⟨k, hk, rfl⟩ := mem_starts_made.mp hy
      exact hidle k hk
    · rw [starts_made_of_ne hij] at hy
      obtain ⟨block, hheader, hblock⟩ := h.idle j y hy hylive
      exact ⟨block, (hheaders y (isBlock_of_start hy)).trans hheader, hblock⟩

end Inv

end Made

end MgrState

end CellNet
