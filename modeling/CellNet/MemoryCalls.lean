import CellNet.MemoryPool

/-!
# The calls of the memory pool

What each call of a `MemoryMgr` does between two states with `Inv`. `allocMem` returns a new live
block that is referenced once (`Inv.act_allocMem`). `freeMem` counts the block down and, at 0,
releases it, but asserts of a block of a pool that it is referenced once
(`Inv.act_freeMem`). `addRef` counts it up (`Inv.act_addRef`). No call changes the headers of
other live blocks.
-/

namespace CellNet

namespace MgrState

variable {blockNum : Pool → ℕ} {s : MgrState} {i j : Pool} {b c : LiveBlock} {x y : ℕ}

/-! ## `allocMem` -/

/-- The state behind a call that returned the block `b`. -/
structure Returned (blockNum : Pool → ℕ) (s : MgrState) (g : MemoryMgr) (m : Memory)
    (b : LiveBlock) : Prop where
  inv : Inv blockNum ⟨g, m, s.live ++ [b]⟩
  once : ∃ block, m.headers b.pBlock = some block ∧ block.From b.pool ∧ block.nRef = 1
  other : ∀ c ∈ s.live, m.headers c.pBlock = s.mem.headers c.pBlock

/-- A call that changes the header of no live block may come first. -/
theorem Returned.trans {g g' : MemoryMgr} {m m' : Memory}
    (h : Returned blockNum ⟨g, m, s.live⟩ g' m' b)
    (hother : ∀ c ∈ s.live, m.headers c.pBlock = s.mem.headers c.pBlock) :
    Returned blockNum s g' m' b :=
  ⟨h.inv, h.once, fun c hc => (h.other c hc).trans (hother c hc)⟩

/-- The block is what `allocMem` returns the pointer of. -/
theorem Returned.act_eq {g : MemoryMgr} {m : Memory} {nSize : ℕ} {sys : Mallocs}
    (h : Returned blockNum s g m b) (hok : s.mgr.allocMem s.mem nSize sys = .ok (g, m, b.pMem))
    (hb : b.nSize = nSize) :
    s.act (.allocMem nSize sys) = some (.ok ⟨g, m, s.live ++ [b]⟩) := by
  obtain ⟨block, hheader, hfrom, -⟩ := h.once
  have hpBlock : b.pMem - sizeofMemoryBlock = b.pBlock := Nat.add_sub_cancel ..
  have hpool : (m.headers b.pBlock).bind MemoryBlock.pAlloc = b.pool := by
    rw [hheader]
    exact hfrom.pAlloc
  rw [act, hok, Fallible.ok_bind]
  dsimp only
  rw [hpBlock, hpool, ← hb]
  rfl

/-- The pool for a size. -/
def poolFor (nSize : ℕ) : Pool :=
  if nSize ≤ 64 then .mem64 else .mem128

theorem szAlloc_get {nSize : ℕ} (h : nSize ≤ MAX_MEMORY_SZIE) :
    (MemoryMgr.new blockNum).szAlloc[nSize]? = some (some (poolFor nSize)) := by
  have htable : ∀ n < MAX_MEMORY_SZIE + 1,
      (MemoryMgr.new fun _ => 0).szAlloc[n]? = some (some (poolFor n)) := by
    decide +kernel
  exact htable nSize (Nat.lt_succ_of_le h)

theorem le_poolFor {nSize : ℕ} (h : nSize ≤ MAX_MEMORY_SZIE) : nSize ≤ (poolFor nSize).nSize := by
  unfold poolFor
  split
  · assumption
  · exact h

namespace Inv

variable (h : Inv blockNum s)
include h

theorem fits (i : Pool) : (s.mgr.get i).Fits := by
  refine ⟨?_, ?_⟩
  · rw [(h.params i).2]
    exact (h.fit i).1
  · rw [(h.params i).2, h.realSize_get]
    exact (h.fit i).2

/-- The buffer of the pool is made, if it is not there. -/
theorem ready (i : Pool) (buf : ℕ) :
    (s.mgr.get i).initIfNone i s.mem buf = .error .notFresh ∨
    ∃ a m, (s.mgr.get i).initIfNone i s.mem buf = .ok (a, m) ∧
      Inv blockNum ⟨s.mgr.set a i, m, s.live⟩ ∧
      ∀ c ∈ s.live, m.headers c.pBlock = s.mem.headers c.pBlock := by
  unfold MemoryAlloc.initIfNone
  by_cases hbuf : (s.mgr.get i).pBuf = none
  · rw [if_pos hbuf]
    have hsize : (s.mgr.get i).nBlockNum * (s.mgr.get i).realSize = blockNum i * i.realSize := by
      rw [(h.params i).2, h.realSize_get]
    by_cases hr : s.mem.Fresh ⟨buf, (s.mgr.get i).nBlockNum * (s.mgr.get i).realSize⟩
    · obtain ⟨m, hm, hinit⟩ := MemoryAlloc.initMemory_eq i hbuf (h.fits i) hr
      have hr' : s.mem.Fresh ⟨buf, blockNum i * i.realSize⟩ := hsize ▸ hr
      refine .inr ⟨_, m, hm, h.init hbuf hr' hinit, fun c hc => ?_⟩
      exact hinit.other _ (h.header_apart_of_fresh hr (h.isBlock_of_live hc))
    · exact .inl (MemoryAlloc.initMemory_of_not_fresh hbuf (h.fits i) hr)
  · rw [if_neg hbuf]
    refine .inr ⟨_, _, rfl, ?_, fun _ _ => rfl⟩
    rw [MemoryMgr.set_get]
    exact h

/-- A region for a block. -/
theorem returned_own {p nSize : ℕ} (hr : s.mem.Fresh ⟨p, nSize + sizeofMemoryBlock⟩) :
    Returned blockNum s s.mgr
      ((s.mem.alloc ⟨p, nSize + sizeofMemoryBlock⟩).put p MemoryAlloc.ownBlock)
      ⟨p, nSize, none⟩ := by
  refine ⟨h.allocOwn hr, ⟨_, RawMemory.headers_put_self, ⟨rfl, rfl⟩, rfl⟩, fun c hc => ?_⟩
  have happ := h.header_apart_of_fresh hr (h.isBlock_of_live hc)
  have hwithin : (Region.mk p sizeofMemoryBlock).Within ⟨p, nSize + sizeofMemoryBlock⟩ :=
    Region.within_of_le (Nat.le_add_left _ _)
  rw [RawMemory.headers_put_of_apart MemoryAlloc.sizeofMemoryBlock_pos
    (happ.symm.within hwithin).symm]
  exact RawMemory.headers_alloc_of_apart happ

/-- `malloc` and the header, where a block has its own region. -/
theorem malloc_own (p : ℕ) {nSize : ℕ}
    (hfits : nSize + sizeofMemoryBlock < 18446744073709551616) :
    s.mem.malloc p (sizeT ((nSize : ℤ) + (sizeofMemoryBlock : ℤ))) = .error .notFresh ∨
    ∃ m m', s.mem.malloc p (sizeT ((nSize : ℤ) + (sizeofMemoryBlock : ℤ))) = .ok m ∧
      m.write p MemoryAlloc.ownBlock = .ok m' ∧ Returned blockNum s s.mgr m' ⟨p, nSize, none⟩ := by
  rw [← Nat.cast_add, sizeT_natCast hfits]
  by_cases hr : s.mem.Fresh ⟨p, nSize + sizeofMemoryBlock⟩
  · refine .inr ⟨_, _, RawMemory.malloc_eq hr, RawMemory.write_eq ?_ _, h.returned_own hr⟩
    exact RawMemory.holds_alloc_self (Region.within_of_le (Nat.le_add_left _ _))
  · exact .inl (RawMemory.malloc_eq_of_not hr)

/-- A pool with a free block. -/
theorem takeBlock_some {nSize : ℕ} (hle : nSize ≤ i.nSize)
    (hx : (s.mgr.get i).pHeader = some x) (block : ℕ) :
    ∃ a m, (s.mgr.get i).takeBlock s.mem nSize block = .ok (a, m, x + sizeofMemoryBlock) ∧
      Returned blockNum s (s.mgr.set a i) m ⟨x, nSize, some i⟩ := by
  obtain ⟨hstart, hxlive, header, hheader, hidle, hpop⟩ := h.pop hx
  refine ⟨_, _, ?_, hpop nSize hle, ⟨_, RawMemory.headers_put_self,
    ⟨hidle.pAlloc, hidle.bPool⟩, rfl⟩, fun c hc => ?_⟩
  · rw [MemoryAlloc.takeBlock, hx]
    dsimp only
    rw [RawMemory.read_eq hheader, Fallible.ok_bind, assert_of hidle.nRef, Fallible.ok_bind,
      RawMemory.write_eq (h.holds (isBlock_of_start hstart))]
    rfl
  · refine h.headers_put (h.isBlock_of_live hc) (isBlock_of_start hstart) ?_ _
    exact fun heq => hxlive (heq ▸ mem_liveSet hc)

/-- A pool without a free block. -/
theorem takeBlock_none {nSize : ℕ} (hfits : nSize + sizeofMemoryBlock < 18446744073709551616)
    (hx : (s.mgr.get i).pHeader = none) (block : ℕ) :
    (s.mgr.get i).takeBlock s.mem nSize block = .error .notFresh ∨
    ∃ m, (s.mgr.get i).takeBlock s.mem nSize block =
        .ok (s.mgr.get i, m, block + sizeofMemoryBlock) ∧
      Returned blockNum s s.mgr m ⟨block, nSize, none⟩ := by
  rw [MemoryAlloc.takeBlock, hx]
  dsimp only
  rcases h.malloc_own block hfits with hmalloc | ⟨m, m', hmalloc, hwrite, hreturned⟩
  · left
    rw [hmalloc]
    rfl
  · refine .inr ⟨m', ?_, hreturned⟩
    rw [hmalloc, Fallible.ok_bind, hwrite]
    rfl

/-- `allocMemory` of a pool for the size. -/
theorem allocMemory {nSize : ℕ} (hle : nSize ≤ i.nSize)
    (hfits : nSize + sizeofMemoryBlock < 18446744073709551616) (sys : Mallocs) :
    (s.mgr.get i).allocMemory i s.mem nSize sys = .error .notFresh ∨
    ∃ a m b, (s.mgr.get i).allocMemory i s.mem nSize sys = .ok (a, m, b.pMem) ∧
      b.nSize = nSize ∧ Returned blockNum s (s.mgr.set a i) m b := by
  unfold MemoryAlloc.allocMemory
  rcases h.ready i sys.buf with hready | ⟨a, m, hready, hinv, hother⟩
  · left
    rw [hready]
    rfl
  rw [hready, Fallible.ok_bind]
  dsimp only
  have hget : (s.mgr.set a i).get i = a := MemoryMgr.get_set ..
  cases hheader : a.pHeader with
  | none =>
    have htake := hinv.takeBlock_none hfits (hget.symm ▸ hheader) sys.block
    rw [hget] at htake
    rcases htake with hfresh | ⟨m', hok, hreturned⟩
    · exact .inl hfresh
    · exact .inr ⟨a, m', ⟨sys.block, nSize, none⟩, hok, rfl, hreturned.trans hother⟩
  | some x =>
    have htake := hinv.takeBlock_some hle (hget.symm ▸ hheader) sys.block
    rw [hget] at htake
    obtain ⟨a', m', hok, hreturned⟩ := htake
    dsimp only at hreturned
    rw [MemoryMgr.set_set] at hreturned
    exact .inr ⟨a', m', ⟨x, nSize, some i⟩, hok, rfl, hreturned.trans hother⟩

/-- A call of `allocMem` returns a block of the size, if what `malloc` returns is fresh. -/
theorem act_allocMem {nSize : ℕ} (hfits : nSize + sizeofMemoryBlock < 18446744073709551616)
    (sys : Mallocs) :
    s.act (.allocMem nSize sys) = some (.error .notFresh) ∨
    ∃ g m b, s.act (.allocMem nSize sys) = some (.ok ⟨g, m, s.live ++ [b]⟩) ∧ b.nSize = nSize ∧
      Returned blockNum s g m b := by
  have hcall : s.mgr.allocMem s.mem nSize sys = .error .notFresh ∨
      ∃ g m b, s.mgr.allocMem s.mem nSize sys = .ok (g, m, b.pMem) ∧ b.nSize = nSize ∧
        Returned blockNum s g m b := by
    unfold MemoryMgr.allocMem
    by_cases hmax : nSize ≤ MAX_MEMORY_SZIE
    · rw [if_pos hmax, h.szAlloc, szAlloc_get hmax]
      dsimp only
      rcases h.allocMemory (le_poolFor hmax) hfits sys with herror | ⟨a, m, b, hok, hb, hreturned⟩
      · left
        rw [herror]
        rfl
      · refine .inr ⟨_, m, b, ?_, hb, hreturned⟩
        rw [hok]
        rfl
    · rw [if_neg hmax]
      rcases h.malloc_own sys.block hfits with hmalloc | ⟨m, m', hmalloc, hwrite, hreturned⟩
      · left
        rw [hmalloc]
        rfl
      · refine .inr ⟨_, m', ⟨sys.block, nSize, none⟩, ?_, rfl, hreturned⟩
        rw [hmalloc, Fallible.ok_bind, hwrite]
        rfl
  rcases hcall with herror | ⟨g, m, b, hok, hb, hreturned⟩
  · left
    rw [act, herror]
    rfl
  · exact .inr ⟨g, m, b, hreturned.act_eq hok hb, hb, hreturned⟩

end Inv

/-! ## `freeMem` and `addRef` -/

/-- The state behind a call that changed the count of the live block `b` to `nRef`. -/
structure Counted (blockNum : Pool → ℕ) (s : MgrState) (b : LiveBlock) (nRef : ℤ)
    (s' : MgrState) : Prop where
  inv : Inv blockNum s'
  live : s'.live = s.live
  nRef : ∃ block, s'.mem.headers b.pBlock = some block ∧ block.nRef = nRef
  other : ∀ c ∈ s.live, c ≠ b → s'.mem.headers c.pBlock = s.mem.headers c.pBlock

/-- The state behind a call that released the live block `b`. -/
structure Freed (blockNum : Pool → ℕ) (s : MgrState) (b : LiveBlock) (s' : MgrState) : Prop where
  inv : Inv blockNum s'
  live : s'.live = s.live.filter (· ≠ b)
  pooled : ∀ i, b.pool = some i → b.pBlock ∈ starts blockNum s' i
  own : b.pool = none → b.region ∉ s'.mem.regions
  other : ∀ c ∈ s.live, c ≠ b → s'.mem.headers c.pBlock = s.mem.headers c.pBlock

/-- The count may change first. -/
theorem Freed.trans {nRef : ℤ} {s₁ s' : MgrState} (h : Freed blockNum s₁ b s')
    (h₁ : Counted blockNum s b nRef s₁) : Freed blockNum s b s' := by
  refine ⟨h.inv, h₁.live ▸ h.live, h.pooled, h.own, fun c hc hne => ?_⟩
  exact (h.other c (h₁.live ▸ hc) hne).trans (h₁.other c hc hne)

theorem pMem_sub (b : LiveBlock) : b.pMem - sizeofMemoryBlock = b.pBlock :=
  Nat.add_sub_cancel ..

theorem released_of_header {m : Memory} {block : MemoryBlock} (h : m.headers x = some block) :
    released m x = decide (block.nRef = 0) := by
  rw [released, h]

namespace Inv

variable (h : Inv blockNum s)
include h

theorem live_filter (hb : b ∈ s.live) (m : Memory) :
    (s.live.filter fun c => ¬(c.pMem = b.pMem ∧ released m c.pBlock)) =
      if released m b.pBlock then s.live.filter (· ≠ b) else s.live := by
  have heq : ∀ c ∈ s.live, c.pMem = b.pMem ↔ c = b := fun c hc =>
    ⟨fun hpMem => h.eq_of_pBlock hc hb (Nat.add_right_cancel hpMem), fun hcb => hcb ▸ rfl⟩
  split
  · rename_i hreleased
    refine List.filter_congr fun c hc => decide_eq_decide.mpr (not_congr ?_)
    rw [heq c hc]
    exact and_iff_left_of_imp fun hcb => hcb ▸ hreleased
  · rename_i hkept
    refine List.filter_eq_self.mpr fun c hc => decide_eq_true ?_
    rintro ⟨hpMem, hreleased⟩
    rw [(heq c hc).mp hpMem] at hreleased
    exact hkept hreleased

/-- The count of a live block changes. -/
theorem counted (hb : b ∈ s.live) {block : MemoryBlock} (hfrom : block.From b.pool) :
    Counted blockNum s b block.nRef { s with mem := s.mem.put b.pBlock block } := by
  refine ⟨h.count hb hfrom, rfl, ⟨block, RawMemory.headers_put_self, rfl⟩, fun c hc hne => ?_⟩
  exact h.headers_put (h.isBlock_of_live hc) (h.isBlock_of_live hb)
    (fun heq => hne (h.eq_of_pBlock hc hb heq)) block

/-- A live block whose count is 0 goes back into its pool. -/
theorem freed_push (hb : b ∈ s.live) (hpool : b.pool = some i) {block : MemoryBlock}
    (hidle : block.Idle i) :
    Freed blockNum s b ⟨s.mgr.set { s.mgr.get i with pHeader := some b.pBlock } i,
      s.mem.put b.pBlock { block with pNext := (s.mgr.get i).pHeader },
      s.live.filter (· ≠ b)⟩ := by
  refine ⟨h.push hb hpool hidle, rfl, fun j hj => ?_, fun hnone => ?_, fun c hc hne => ?_⟩
  · have hkeeps : KeepsBuf (s.mgr.get i) { s.mgr.get i with pHeader := some b.pBlock } :=
      ⟨rfl, rfl, rfl⟩
    obtain ⟨buf, hbuf, hplace⟩ := (h.pooled b hb j hj).1
    exact ⟨buf, (keepsBuf_set hkeeps j).pBuf.trans hbuf, hplace⟩
  · exact absurd (hnone.symm.trans hpool) nofun
  · exact h.headers_put (h.isBlock_of_live hc) (h.isBlock_of_live hb)
      (fun heq => hne (h.eq_of_pBlock hc hb heq)) _

/-- The region of a live block of its own is freed. -/
theorem freed_release (hb : b ∈ s.live) (hpool : b.pool = none) :
    Freed blockNum s b ⟨s.mgr, s.mem.release b.region, s.live.filter (· ≠ b)⟩ := by
  refine ⟨h.release hb hpool, rfl, fun j hj => ?_, fun _ hmem => ?_, fun c hc hne => ?_⟩
  · exact absurd (hpool.symm.trans hj) nofun
  · exact (h.bases.mem_release.mp hmem).1 rfl
  · obtain ⟨size, hle, hblock⟩ := h.isBlock_of_live hc
    have happ := (h.disjoint _ hblock _ (.inr ⟨b, hb, hpool, rfl⟩)).resolve_left fun heq =>
      hne (h.eq_of_pBlock hc hb (Region.mk.inj heq).1)
    exact RawMemory.headers_release_of_apart (happ.within (Region.within_of_le hle))

theorem from_of_header (hb : b ∈ s.live) {block : MemoryBlock}
    (hheader : s.mem.headers b.pBlock = some block) : block.From b.pool := by
  obtain ⟨block', hheader', hfrom⟩ := h.header b hb
  obtain rfl := Option.some.inj (hheader.symm.trans hheader')
  exact hfrom

theorem write_eq (hb : b ∈ s.live) (block : MemoryBlock) :
    s.mem.write b.pBlock block = .ok (s.mem.put b.pBlock block) :=
  RawMemory.write_eq (h.holds (h.isBlock_of_live hb)) block

/-- `addRef` counts up. -/
theorem act_addRef (hb : b ∈ s.live) {block : MemoryBlock}
    (hheader : s.mem.headers b.pBlock = some block) :
    ∃ s', s.act (.addRef b.pMem) = some (.ok s') ∧
      Counted blockNum s b (int32 (block.nRef + 1)) s' := by
  let block₁ : MemoryBlock := { block with nRef := int32 (block.nRef + 1) }
  have hfrom := h.from_of_header hb hheader
  have hfrom₁ : block₁.From b.pool := ⟨hfrom.pAlloc, hfrom.bPool⟩
  refine ⟨_, ?_, h.counted hb hfrom₁⟩
  rw [act, if_pos (List.mem_map_of_mem hb), MemoryMgr.addRef, pMem_sub, RawMemory.read_eq hheader,
    Fallible.ok_bind, h.write_eq hb]
  rfl

/-- `freeMem` of a block of a pool that is referenced once releases it. -/
theorem act_freeMem_pool (hb : b ∈ s.live) (hpool : b.pool = some i) {block : MemoryBlock}
    (hheader : s.mem.headers b.pBlock = some block) (hnRef : block.nRef = 1) :
    ∃ s', s.act (.freeMem b.pMem) = some (.ok s') ∧ Freed blockNum s b s' := by
  have hfrom := h.from_of_header hb hheader
  obtain ⟨pAlloc, pNext, nID, nRef, bPool⟩ := block
  obtain rfl : nRef = 1 := hnRef
  obtain rfl : pAlloc = some i := hfrom.pAlloc.trans hpool
  obtain rfl : bPool = true := hfrom.bPool.trans (congrArg Option.isSome hpool)
  -- the count changes first
  let block₁ : MemoryBlock := ⟨some i, pNext, nID, 0, true⟩
  have hfrom₁ : block₁.From b.pool := ⟨hpool.symm, hfrom.bPool⟩
  have hcounted := h.counted hb hfrom₁
  have hidle : block₁.Idle i := ⟨rfl, rfl, rfl⟩
  have hb₁ : b ∈ (MgrState.mk s.mgr (s.mem.put b.pBlock block₁) s.live).live := hb
  refine ⟨_, ?_, (hcounted.inv.freed_push hb₁ hpool hidle).trans hcounted⟩
  have hint : int32 (1 - 1) = 0 := by decide
  have hwrite₁ : (s.mem.put b.pBlock ⟨some i, pNext, nID, 0, true⟩).write b.pBlock
      ⟨some i, (s.mgr.get i).pHeader, nID, 0, true⟩ = .ok _ := hcounted.inv.write_eq hb₁ _
  have hcall : s.mgr.freeMem s.mem b.pMem =
      .ok (s.mgr.set { s.mgr.get i with pHeader := some b.pBlock } i,
        (s.mem.put b.pBlock block₁).put b.pBlock
          { block₁ with pNext := (s.mgr.get i).pHeader }) := by
    simp only [MemoryMgr.freeMem, MemoryAlloc.freeMemory, pMem_sub, RawMemory.read_eq hheader,
      Fallible.ok_bind, if_true, assert_of, hint, h.write_eq hb, ne_eq, not_true_eq_false,
      if_false, hwrite₁]
    rfl
  rw [act, if_pos (List.mem_map_of_mem hb), hcall, Fallible.ok_bind]
  dsimp only
  rw [h.live_filter hb, released_of_header RawMemory.headers_put_self]
  rfl

/-- `freeMem` asserts of a block of a pool that it is referenced once. -/
theorem act_freeMem_assertion (hb : b ∈ s.live) (hpool : b.pool = some i) {block : MemoryBlock}
    (hheader : s.mem.headers b.pBlock = some block) (hnRef : block.nRef ≠ 1) :
    s.act (.freeMem b.pMem) = some (.error .assertion) := by
  have hfrom := h.from_of_header hb hheader
  have hpAlloc : block.pAlloc = some i := hfrom.pAlloc.trans hpool
  have hbPool : block.bPool = true := hfrom.bPool.trans (congrArg Option.isSome hpool)
  have hcall : s.mgr.freeMem s.mem b.pMem = .error .assertion := by
    simp only [MemoryMgr.freeMem, MemoryAlloc.freeMemory, pMem_sub, RawMemory.read_eq hheader,
      Fallible.ok_bind, hbPool, if_true, hpAlloc, assert_of_not hnRef, Fallible.error_bind]
  rw [act, if_pos (List.mem_map_of_mem hb), hcall]
  rfl

/-- `freeMem` counts a block of its own down, and at 0 it frees its region. -/
theorem act_freeMem_own (hb : b ∈ s.live) (hpool : b.pool = none) {block : MemoryBlock}
    (hheader : s.mem.headers b.pBlock = some block) :
    ∃ s', s.act (.freeMem b.pMem) = some (.ok s') ∧
      ((int32 (block.nRef - 1) = 0 ∧ Freed blockNum s b s') ∨
        (int32 (block.nRef - 1) ≠ 0 ∧ Counted blockNum s b (int32 (block.nRef - 1)) s')) := by
  have hfrom := h.from_of_header hb hheader
  obtain ⟨pAlloc, pNext, nID, nRef, bPool⟩ := block
  obtain rfl : bPool = false := hfrom.bPool.trans (congrArg Option.isSome hpool)
  let block₁ : MemoryBlock := ⟨pAlloc, pNext, nID, int32 (nRef - 1), false⟩
  have hfrom₁ : block₁.From b.pool := ⟨hfrom.pAlloc, hfrom.bPool⟩
  have hcounted := h.counted hb hfrom₁
  have hb₁ : b ∈ (MgrState.mk s.mgr (s.mem.put b.pBlock block₁) s.live).live := hb
  have hmem := List.mem_map_of_mem (f := LiveBlock.pMem) hb
  by_cases hzero : int32 (nRef - 1) = 0
  · refine ⟨_, ?_, .inl ⟨hzero, (hcounted.inv.freed_release hb₁ hpool).trans hcounted⟩⟩
    have hregion : b.region ∈ (s.mem.put b.pBlock block₁).regions := (h.own b hb hpool).1
    have hfree : (s.mem.put b.pBlock block₁).free b.pBlock =
        .ok ((s.mem.put b.pBlock block₁).release b.region) :=
      hcounted.inv.bases.free_eq hregion
    have hcall : s.mgr.freeMem s.mem b.pMem =
        .ok (s.mgr, (s.mem.put b.pBlock block₁).release b.region) := by
      simp only [MemoryMgr.freeMem, pMem_sub, RawMemory.read_eq hheader, Fallible.ok_bind,
        Bool.false_eq_true, if_false, h.write_eq hb]
      rw [if_pos hzero, hfree]
      rfl
    have hgone : released ((s.mem.put b.pBlock block₁).release b.region) b.pBlock = true := by
      have hnone : ((s.mem.put b.pBlock block₁).release b.region).headers b.pBlock = none := by
        refine if_neg fun happ => ?_
        have hpos : 0 < b.region.size := Nat.lt_add_left _ MemoryAlloc.sizeofMemoryBlock_pos
        exact absurd rfl (happ.base_ne MemoryAlloc.sizeofMemoryBlock_pos hpos)
      rw [released, hnone]
    rw [act, if_pos hmem, hcall, Fallible.ok_bind]
    dsimp only
    rw [h.live_filter hb, if_pos hgone]
    rfl
  · refine ⟨_, ?_, .inr ⟨hzero, hcounted⟩⟩
    have hcall : s.mgr.freeMem s.mem b.pMem = .ok (s.mgr, s.mem.put b.pBlock block₁) := by
      simp only [MemoryMgr.freeMem, pMem_sub, RawMemory.read_eq hheader, Fallible.ok_bind,
        Bool.false_eq_true, if_false, h.write_eq hb]
      rw [if_neg hzero]
      rfl
    have hkept : released (s.mem.put b.pBlock block₁) b.pBlock = false := by
      rw [released_of_header RawMemory.headers_put_self]
      exact decide_eq_false hzero
    rw [act, if_pos hmem, hcall, Fallible.ok_bind]
    dsimp only
    rw [h.live_filter hb, hkept]
    rfl

/-- `freeMem` releases a live block, or counts down a block of its own. -/
theorem freeMem_cases {s' : MgrState} (hb : b ∈ s.live) {block : MemoryBlock}
    (hheader : s.mem.headers b.pBlock = some block)
    (hact : s.act (.freeMem b.pMem) = some (.ok s')) :
    Freed blockNum s b s' ∨
      (b.pool = none ∧ int32 (block.nRef - 1) ≠ 0 ∧
        Counted blockNum s b (int32 (block.nRef - 1)) s') := by
  cases hpool : b.pool with
  | some i =>
    by_cases hnRef : block.nRef = 1
    · obtain ⟨t, ht, hfreed⟩ := h.act_freeMem_pool hb hpool hheader hnRef
      obtain rfl := Except.ok.inj (Option.some.inj (ht.symm.trans hact))
      exact .inl hfreed
    · rw [h.act_freeMem_assertion hb hpool hheader hnRef] at hact
      exact absurd (Option.some.inj hact) nofun
  | none =>
    obtain ⟨t, ht, hcases⟩ := h.act_freeMem_own hb hpool hheader
    obtain rfl := Except.ok.inj (Option.some.inj (ht.symm.trans hact))
    rcases hcases with ⟨-, hfreed⟩ | ⟨hne, hcounted⟩
    · exact .inl hfreed
    · exact .inr ⟨rfl, hne, hcounted⟩

end Inv

end MgrState

end CellNet
