import CellNet.MemoryMgr

/-!
# The first call of a memory pool

`initMemory` cuts the buffer of a `MemoryAlloc` into blocks and links them, by a loop that keeps
the last block it wrote in `pTemp1`. `Linking` says what holds behind a pass of that loop. Where
the size of the buffer is a `size_t`, the loop ends with all blocks in the free list
(`initMemory_eq`).
-/

namespace CellNet

/-- A block of `owner` that is not used. -/
structure MemoryBlock.Idle (block : MemoryBlock) (owner : Pool) : Prop where
  pAlloc : block.pAlloc = some owner
  nRef : block.nRef = 0
  bPool : block.bPool = true

namespace MemoryAlloc

variable {a : MemoryAlloc} {owner : Pool} {m₀ m : Memory} {x : Memory × ℕ}
  {buf size total n : ℕ}

/-- The size of a block with its header. -/
def realSize (a : MemoryAlloc) : ℕ :=
  a.nSize + sizeofMemoryBlock

/-- The blocks up to the one with the number `n`, of `total`, are linked. -/
structure Linking (owner : Pool) (m₀ : Memory) (buf size total n : ℕ) (x : Memory × ℕ) : Prop where
  regions : x.1.regions = m₀.regions
  last : x.2 = buf + n * size
  idle : ∀ k ≤ n, ∃ block, x.1.headers (buf + k * size) = some block ∧ block.Idle owner ∧
    block.pNext = if k < n then some (buf + (k + 1) * size) else none
  other : ∀ p, (Region.mk p sizeofMemoryBlock).Apart ⟨buf, total * size⟩ →
    x.1.headers p = m₀.headers p

/-- There is room for the header of each block. -/
theorem holds_block (hsize : sizeofMemoryBlock ≤ size) (hbuf : ⟨buf, total * size⟩ ∈ m.regions)
    (hn : n < total) : m.Holds (buf + n * size) :=
  ⟨_, hbuf, (Region.within_of_le hsize).trans (Region.row_within hn)⟩

theorem header_within (hsize : sizeofMemoryBlock ≤ size) (hn : n < total) :
    (Region.mk (buf + n * size) sizeofMemoryBlock).Within ⟨buf, total * size⟩ :=
  (Region.within_of_le hsize).trans (Region.row_within hn)

theorem sizeofMemoryBlock_pos : 0 < sizeofMemoryBlock := by
  decide

/-- The first block. -/
theorem Linking.first (owner : Pool) (hsize : sizeofMemoryBlock ≤ size) (htotal : 0 < total) :
    Linking owner m buf size total 0 (m.put buf ⟨some owner, none, 0, 0, true⟩, buf) := by
  refine ⟨rfl, by simp, fun k hk => ?_, fun p hp => ?_⟩
  · obtain rfl : k = 0 := Nat.le_zero.mp hk
    rw [Nat.zero_mul, Nat.add_zero]
    exact ⟨_, RawMemory.headers_put_self, ⟨rfl, rfl, rfl⟩, rfl⟩
  · have hwithin : (Region.mk (buf + 0 * size) sizeofMemoryBlock).Within ⟨buf, total * size⟩ :=
      header_within hsize htotal
    rw [Nat.zero_mul, Nat.add_zero] at hwithin
    exact RawMemory.headers_put_of_apart sizeofMemoryBlock_pos (hp.symm.within hwithin).symm

/-- A pass of the loop. -/
theorem Linking.step (hsize : sizeofMemoryBlock ≤ size) (hfit : total * size < 18446744073709551616)
    (hbuf : ⟨buf, total * size⟩ ∈ m₀.regions) (hn : n + 1 < total)
    (h : Linking owner m₀ buf size total n x) :
    ∃ y, linkBlock owner buf size x (n + 1) = .ok y ∧
      Linking owner m₀ buf size total (n + 1) y := by
  obtain ⟨m, pTemp1⟩ := x
  obtain ⟨hregions, hlast, hidle, hother⟩ := h
  dsimp only at hregions hlast hidle hother
  subst hlast
  have hlt : (n + 1) * size < 18446744073709551616 :=
    (Nat.mul_le_mul_right size hn.le).trans_lt hfit
  have hplace : sizeT (((n + 1 : ℕ) : ℤ) * (size : ℤ)) = (n + 1) * size := by
    rw [← Nat.cast_mul, sizeT_natCast hlt]
  have hbuf' : ⟨buf, total * size⟩ ∈ m.regions := hregions ▸ hbuf
  -- the new block, and the last one
  let new : MemoryBlock := ⟨some owner, none, int32 (n + 1 : ℕ), 0, true⟩
  let m₁ : Memory := m.put (buf + (n + 1) * size) new
  obtain ⟨block, hblock, hblockIdle, -⟩ := hidle n (le_refl n)
  have hapart : ∀ k l, k ≠ l → (Region.mk (buf + k * size) sizeofMemoryBlock).Apart
      ⟨buf + l * size, sizeofMemoryBlock⟩ := fun k l hne => Region.row_apart hsize hne
  have hblock₁ : m₁.headers (buf + n * size) = some block := by
    rw [RawMemory.headers_put_of_apart sizeofMemoryBlock_pos (hapart _ _ (by omega))]
    exact hblock
  let m₂ : Memory :=
    m₁.put (buf + n * size) { block with pNext := some (buf + (n + 1) * size) }
  refine ⟨(m₂, buf + (n + 1) * size), ?_, hregions, rfl, fun k hk => ?_, fun p hp => ?_⟩
  · have hwrite₁ : m.write (buf + (n + 1) * size) new = .ok m₁ :=
      RawMemory.write_eq (holds_block hsize hbuf' hn) _
    have hread : m₁.read (buf + n * size) = .ok block := RawMemory.read_eq hblock₁
    have hwrite₂ : m₁.write (buf + n * size)
        { block with pNext := some (buf + (n + 1) * size) } = .ok m₂ := by
      refine RawMemory.write_eq ?_ _
      have hholds : m.Holds (buf + n * size) := holds_block hsize hbuf' (by omega)
      exact hholds
    simp only [linkBlock, hplace]
    rw [hwrite₁, Fallible.ok_bind, hread, Fallible.ok_bind, hwrite₂]
    rfl
  · rcases Nat.lt_trichotomy k n with hlt | rfl | hgt
    · obtain ⟨b, hb, hbIdle, hbNext⟩ := hidle k hlt.le
      refine ⟨b, ?_, hbIdle, ?_⟩
      · rw [RawMemory.headers_put_of_apart sizeofMemoryBlock_pos (hapart _ _ (by omega)),
          RawMemory.headers_put_of_apart sizeofMemoryBlock_pos (hapart _ _ (by omega))]
        exact hb
      · rw [if_pos (by omega)]
        rw [if_pos hlt] at hbNext
        exact hbNext
    · refine ⟨_, RawMemory.headers_put_self, ⟨hblockIdle.pAlloc, hblockIdle.nRef, hblockIdle.bPool⟩,
        ?_⟩
      rw [if_pos (by omega)]
    · obtain rfl : k = n + 1 := by omega
      refine ⟨new, ?_, ⟨rfl, rfl, rfl⟩, ?_⟩
      · rw [RawMemory.headers_put_of_apart sizeofMemoryBlock_pos (hapart _ _ (by omega))]
        exact RawMemory.headers_put_self
      · rw [if_neg (by omega)]
  · have hwithin : ∀ k < total, (Region.mk p sizeofMemoryBlock).Apart
        ⟨buf + k * size, sizeofMemoryBlock⟩ := fun k hk =>
      (hp.symm.within (header_within hsize hk)).symm
    rw [RawMemory.headers_put_of_apart sizeofMemoryBlock_pos (hwithin n (by omega)),
      RawMemory.headers_put_of_apart sizeofMemoryBlock_pos (hwithin (n + 1) hn)]
    exact hother p hp

/-- The loop. -/
theorem Linking.loop (hsize : sizeofMemoryBlock ≤ size) (hfit : total * size < 18446744073709551616)
    (hbuf : ⟨buf, total * size⟩ ∈ m₀.regions) (h : Linking owner m₀ buf size total 0 x)
    (hn : n < total) :
    ∃ y, (List.range' 1 n).foldlM (linkBlock owner buf size) x = .ok y ∧
      Linking owner m₀ buf size total n y := by
  induction n with
  | zero => exact ⟨x, rfl, h⟩
  | succ n ih =>
    obtain ⟨y, hy, hlinking⟩ := ih (by omega)
    obtain ⟨z, hz, hlinking'⟩ := hlinking.step hsize hfit hbuf hn
    refine ⟨z, ?_, hlinking'⟩
    rw [List.range'_1_concat, List.foldlM_append, hy, Fallible.ok_bind, List.foldlM_cons,
      Nat.add_comm 1 n, hz]
    rfl

/-- What a buffer with all its blocks in the free list is. -/
structure Initialised (a : MemoryAlloc) (owner : Pool) (m m' : Memory) (buf : ℕ) : Prop where
  regions : m'.regions = m.regions ++ [⟨buf, a.nBlockNum * a.realSize⟩]
  other : ∀ p, (Region.mk p sizeofMemoryBlock).Apart ⟨buf, a.nBlockNum * a.realSize⟩ →
    m'.headers p = m.headers p
  linked : LinkedFrom (m'.view MemoryBlock.pNext) (some buf)
    ((List.range a.nBlockNum).map fun k => buf + k * a.realSize)
  idle : ∀ k < a.nBlockNum, ∃ block, m'.headers (buf + k * a.realSize) = some block ∧
    block.Idle owner

/-- Numbers of blocks for which the size of the buffer is a `size_t`. -/
def Fits (a : MemoryAlloc) : Prop :=
  1 ≤ a.nBlockNum ∧ a.nBlockNum * a.realSize < 18446744073709551616

theorem Fits.realSize_eq (h : a.Fits) :
    sizeT ((a.nSize : ℤ) + (sizeofMemoryBlock : ℤ)) = a.realSize := by
  have hle : 1 * a.realSize ≤ a.nBlockNum * a.realSize := Nat.mul_le_mul_right _ h.1
  have hlt := h.2
  rw [← Nat.cast_add, sizeT_natCast]
  · rfl
  · unfold realSize at hle hlt
    omega

theorem Fits.bufSize_eq (h : a.Fits) :
    sizeT ((a.nBlockNum : ℤ) * (a.realSize : ℤ)) = a.nBlockNum * a.realSize := by
  rw [← Nat.cast_mul, sizeT_natCast h.2]

theorem initMemory_of_not_fresh (ha : a.pBuf = none) (h : a.Fits)
    (hfresh : ¬m.Fresh ⟨buf, a.nBlockNum * a.realSize⟩) :
    a.initMemory owner m buf = .error .notFresh := by
  simp only [initMemory, assert_of ha, h.realSize_eq, h.bufSize_eq, Fallible.ok_bind,
    RawMemory.malloc_eq_of_not hfresh, Fallible.error_bind]

theorem initMemory_eq (owner : Pool) (ha : a.pBuf = none) (h : a.Fits)
    (hfresh : m.Fresh ⟨buf, a.nBlockNum * a.realSize⟩) :
    ∃ m', a.initMemory owner m buf = .ok ({ a with pBuf := some buf, pHeader := some buf }, m') ∧
      a.Initialised owner m m' buf := by
  let r : Region := ⟨buf, a.nBlockNum * a.realSize⟩
  have hsize : sizeofMemoryBlock ≤ a.realSize := Nat.le_add_left _ _
  have hpos : 0 < a.nBlockNum := h.1
  have hbuf : r ∈ (m.alloc r).regions := List.mem_append_right _ (List.mem_singleton_self r)
  have hwrite := RawMemory.write_eq (holds_block hsize hbuf hpos)
    ⟨some owner, none, 0, 0, true⟩
  rw [Nat.zero_mul, Nat.add_zero] at hwrite
  obtain ⟨⟨m', last⟩, hloop, hlinking⟩ := Linking.loop hsize h.2 hbuf
    (Linking.first owner hsize hpos) (Nat.sub_lt hpos Nat.one_pos)
  have hlast : a.nBlockNum - 1 + 1 = a.nBlockNum := Nat.sub_add_cancel h.1
  refine ⟨m', ?_, hlinking.regions, fun p hp => ?_, ?_, fun k hk => ?_⟩
  · simp only [initMemory, assert_of ha, h.realSize_eq, h.bufSize_eq, Fallible.ok_bind,
      RawMemory.malloc_eq hfresh]
    rw [hwrite, Fallible.ok_bind, hloop]
    rfl
  · rw [hlinking.other p hp]
    exact RawMemory.headers_alloc_of_apart hp
  · let place (k : ℕ) := buf + k * a.realSize
    have hrange : LinkedFrom (m'.view MemoryBlock.pNext) (some (place 0))
        ((List.range (a.nBlockNum - 1 + 1)).map place) := by
      refine LinkedFrom.range (fun k hk => ?_) ?_
      · obtain ⟨block, hblock, -, hnext⟩ := hlinking.idle k hk.le
        rw [RawMemory.view_eq _ hblock, hnext, if_pos hk]
      · obtain ⟨block, hblock, -, hnext⟩ := hlinking.idle _ (le_refl _)
        rw [RawMemory.view_eq _ hblock, hnext, if_neg (lt_irrefl _)]
    have hfirst : place 0 = buf := by simp [place]
    rw [hlast, hfirst] at hrange
    exact hrange
  · obtain ⟨block, hblock, hidle, -⟩ := hlinking.idle k (by omega)
    exact ⟨block, hblock, hidle⟩

end MemoryAlloc

end CellNet
