import CellNet.ObjectPool
import Mathlib.Data.List.Perm.Subperm

/-!
# How many objects the object pool holds

`HoldsObjects` says that a pool of `nPoolSize` objects holds them : a call of `allocObjMemory` takes
a block of the pool exactly if fewer than `nPoolSize` of them are live.

`Inv` is what holds between two calls, where the size of the buffer is a `size_t`. The blocks in
the list of `initPool` are the ones that are ever taken (`listed`), at most two. So a larger pool
does not hold its objects (`HoldsObjects.le_two`), and a pool of one or two does
(`object_pool_holds_iff`).
-/

namespace CellNet

open CELLObjectPoll

namespace PoolState

variable {nPoolSize sizeofType buf x y p : ℕ} {s t : PoolState} {a : PoolAct} {node : NodeHeader}

/-- The block at `x`, header and object. -/
def blockAt (sizeofType x : ℕ) : Region :=
  ⟨x, blockSize sizeofType⟩

/-- The header at `x` is in the buffer of the pool. -/
def InPool (nPoolSize sizeofType : ℕ) (s : PoolState) (x : ℕ) : Prop :=
  s.pool.pBuf.any fun buf =>
    (Region.mk x sizeofNodeHeader).Within ⟨buf, bufSize nPoolSize sizeofType⟩

instance : DecidablePred (InPool nPoolSize sizeofType s) := fun _ =>
  inferInstanceAs (Decidable (_ = true))

/-- The live blocks of the pool. -/
def livePooled (nPoolSize sizeofType : ℕ) (s : PoolState) : List ℕ :=
  s.live.filter (InPool nPoolSize sizeofType s)

end PoolState

open PoolState in
/-- The pool can be made, and in every state of every run `allocObjMemory` returns a block that is
apart from all live blocks, which is one of the pool exactly if fewer than `nPoolSize` blocks of the
pool are live. -/
structure HoldsObjects (nPoolSize sizeofType : ℕ) : Prop where
  construct : ∀ buf, 0 < buf → ∃ s, PoolState.new nPoolSize sizeofType buf = .ok s
  alloc : ∀ s block r, (objectPool nPoolSize sizeofType).Reachable s →
    (objectPool nPoolSize sizeofType).step s (.allocObjMemory block) r →
      ∃ t x, r = .ok t ∧ t.live = s.live ++ [x] ∧
        (∀ y ∈ s.live, (blockAt sizeofType x).Apart (blockAt sizeofType y)) ∧
        (InPool nPoolSize sizeofType t x ↔ (livePooled nPoolSize sizeofType s).length < nPoolSize)

namespace PoolState

variable {nPoolSize sizeofType buf x y p : ℕ} {s t : PoolState} {a : PoolAct} {node : NodeHeader}

/-! ## The invariant -/

/-- The blocks that `initPool` puts in the list. -/
def listed (nPoolSize sizeofType buf : ℕ) : List ℕ :=
  if nPoolSize = 1 then [buf] else [buf, buf + (nPoolSize - 1) * blockSize sizeofType]

/-- There is a block at `x`. -/
def IsBlock (nPoolSize sizeofType buf : ℕ) (s : PoolState) (x : ℕ) : Prop :=
  x ∈ listed nPoolSize sizeofType buf ∨ x ∈ s.live

/-- What holds between two calls. -/
structure Inv (nPoolSize sizeofType buf : ℕ) (s : PoolState) : Prop where
  fits : Fits nPoolSize sizeofType
  pBuf : s.pool.pBuf = some buf
  bases : s.mem.Bases
  buffer : ⟨buf, nPoolSize * blockSize sizeofType⟩ ∈ s.mem.regions
  nodup : s.live.Nodup
  own : ∀ x ∈ s.live, x ∉ listed nPoolSize sizeofType buf →
    blockAt sizeofType x ∈ s.mem.regions ∧
      (blockAt sizeofType x).Apart ⟨buf, nPoolSize * blockSize sizeofType⟩
  apart : ∀ x y, IsBlock nPoolSize sizeofType buf s x → IsBlock nPoolSize sizeofType buf s y →
    x ≠ y → (blockAt sizeofType x).Apart (blockAt sizeofType y)
  header : ∀ x ∈ s.live, ∃ node, s.mem.headers x = some node ∧ node.nRef = 1 ∧
    (node.nPool = true ↔ x ∈ listed nPoolSize sizeofType buf)
  free : FreeListed (s.mem.view NodeHeader.pNext) s.pool.pHeader
    {x | x ∈ listed nPoolSize sizeofType buf} {x | x ∈ s.live}
  idle : ∀ x ∈ listed nPoolSize sizeofType buf, x ∉ s.live →
    ∃ node, s.mem.headers x = some node ∧ node.Idle

theorem mem_listed (h : x ∈ listed nPoolSize sizeofType buf) (hpos : 1 ≤ nPoolSize) :
    ∃ k < nPoolSize, x = buf + k * blockSize sizeofType := by
  unfold listed at h
  split at h
  · obtain rfl := List.mem_singleton.mp h
    exact ⟨0, hpos, by simp⟩
  · rcases List.mem_cons.mp h with rfl | h
    · exact ⟨0, hpos, by simp⟩
    · exact ⟨nPoolSize - 1, by omega, List.mem_singleton.mp h⟩

theorem blockSize_pos (sizeofType : ℕ) : 0 < blockSize sizeofType :=
  Nat.lt_add_right _ sizeofNodeHeader_pos

theorem header_within (sizeofType x : ℕ) :
    (Region.mk x sizeofNodeHeader).Within (blockAt sizeofType x) :=
  Region.within_of_le (Nat.le_add_right _ _)

theorem nodup_listed (nPoolSize sizeofType buf : ℕ) (hpos : 1 ≤ nPoolSize) :
    (listed nPoolSize sizeofType buf).Nodup := by
  unfold listed
  split
  · exact List.nodup_singleton _
  · refine List.nodup_cons.mpr ⟨fun hmem => ?_, List.nodup_singleton _⟩
    have hmul : 0 < (nPoolSize - 1) * blockSize sizeofType :=
      Nat.mul_pos (by omega) (blockSize_pos _)
    have heq := List.mem_singleton.mp hmem
    omega

theorem length_listed_of_le (hpos : 1 ≤ nPoolSize) (hle : nPoolSize ≤ 2) :
    (listed nPoolSize sizeofType buf).length = nPoolSize := by
  unfold listed
  split
  · rename_i hone
    exact hone.symm
  · exact (show 2 = nPoolSize by omega)

/-- A block of the list is in the buffer. -/
theorem within_of_listed (h : x ∈ listed nPoolSize sizeofType buf) (hpos : 1 ≤ nPoolSize) :
    (blockAt sizeofType x).Within ⟨buf, nPoolSize * blockSize sizeofType⟩ := by
  obtain ⟨k, hk, rfl⟩ := mem_listed h hpos
  exact Region.row_within hk

theorem apart_of_listed (hx : x ∈ listed nPoolSize sizeofType buf)
    (hy : y ∈ listed nPoolSize sizeofType buf) (hpos : 1 ≤ nPoolSize) (hne : x ≠ y) :
    (blockAt sizeofType x).Apart (blockAt sizeofType y) := by
  obtain ⟨k, -, rfl⟩ := mem_listed hx hpos
  obtain ⟨l, -, rfl⟩ := mem_listed hy hpos
  exact Region.row_apart (le_refl _) fun hkl => hne (hkl ▸ rfl)

/-- Behind the constructor the list has its blocks, and none is live. -/
theorem Constructed.inv (h : Constructed nPoolSize sizeofType buf s)
    (hfit : Fits nPoolSize sizeofType) : Inv nPoolSize sizeofType buf s := by
  have hregions := h.regions
  rw [hfit.bufSize_eq] at hregions
  have hlive : ∀ x, x ∉ s.live := fun x hx => absurd (h.live ▸ hx) List.not_mem_nil
  -- the list and the headers in it
  have hlist : LinkedFrom (s.mem.view NodeHeader.pNext) s.pool.pHeader
      (listed nPoolSize sizeofType buf) ∧
      ∀ x ∈ listed nPoolSize sizeofType buf, ∃ node, s.mem.headers x = some node ∧ node.Idle := by
    unfold listed
    split
    · rename_i hone
      obtain ⟨node, hnode, hidle, hnext⟩ := h.one hone.le
      rw [h.pool]
      refine ⟨.cons rfl ((RawMemory.view_eq _ hnode).trans (congrArg some hnext)), fun x hx => ?_⟩
      obtain rfl := List.mem_singleton.mp hx
      exact ⟨node, hnode, hidle⟩
    · rename_i hne
      have htwo : 2 ≤ nPoolSize := Nat.lt_of_le_of_ne hfit.pos (Ne.symm hne)
      have hlt := (Nat.mul_le_mul_right (blockSize sizeofType) (Nat.sub_le nPoolSize 1)).trans_lt
        hfit.size
      have hlast : lastBlock nPoolSize sizeofType buf =
          buf + (nPoolSize - 1) * blockSize sizeofType := by
        rw [lastBlock, hfit.realSize_eq, ← Nat.cast_mul, sizeT_natCast hlt]
      have hpos : 0 < (nPoolSize - 1) * blockSize sizeofType :=
        Nat.mul_pos (by omega) (blockSize_pos _)
      obtain ⟨⟨node, hnode, hidle, hnext⟩, hlinked⟩ := hlast ▸ (h.more htwo).2
      obtain ⟨-, node', hnode', hidle', hnext'⟩ := hlinked (by omega)
      rw [h.pool]
      refine ⟨.cons (.cons rfl ((RawMemory.view_eq _ hnode').trans (congrArg some hnext')))
        ((RawMemory.view_eq _ hnode).trans (congrArg some hnext)), fun x hx => ?_⟩
      rcases List.mem_cons.mp hx with rfl | hx
      · exact ⟨node, hnode, hidle⟩
      · obtain rfl := List.mem_singleton.mp hx
        exact ⟨node', hnode', hidle'⟩
  refine ⟨hfit, by rw [h.pool], ?_, ?_, ?_, fun x hx => absurd hx (hlive x), ?_,
    fun x hx => absurd hx (hlive x), ⟨_, hlist.1, fun x => ?_⟩, fun x hx _ => hlist.2 x hx⟩
  · rw [RawMemory.Bases, hregions]
    exact List.nodup_singleton _
  · rw [hregions]
    exact List.mem_singleton_self _
  · rw [h.live]
    exact List.nodup_nil
  · rintro x y (hx | hx) (hy | hy) hne
    · exact apart_of_listed hx hy hfit.pos hne
    · exact absurd hy (hlive y)
    · exact absurd hx (hlive x)
    · exact absurd hx (hlive x)
  · exact (and_iff_left (hlive x)).symm

namespace Inv

variable (h : Inv nPoolSize sizeofType buf s)
include h

/-- Each block is in a region. -/
theorem within (hx : IsBlock nPoolSize sizeofType buf s x) :
    ∃ r ∈ s.mem.regions, (blockAt sizeofType x).Within r := by
  by_cases hlist : x ∈ listed nPoolSize sizeofType buf
  · exact ⟨_, h.buffer, within_of_listed hlist h.fits.pos⟩
  · exact ⟨_, (h.own x (hx.resolve_left hlist) hlist).1, .refl _⟩

theorem holds (hx : IsBlock nPoolSize sizeofType buf s x) : s.mem.Holds x := by
  obtain ⟨r, hr, hwithin⟩ := h.within hx
  exact ⟨r, hr, (header_within sizeofType x).trans hwithin⟩

/-- A write to the header of one block leaves the others alone. -/
theorem headers_put (hx : IsBlock nPoolSize sizeofType buf s x)
    (hy : IsBlock nPoolSize sizeofType buf s y) (hne : x ≠ y) (node : NodeHeader) :
    (s.mem.put y node).headers x = s.mem.headers x := by
  have happ := (h.apart x y hx hy hne).within (header_within sizeofType x)
  exact RawMemory.headers_put_of_apart sizeofNodeHeader_pos
    (happ.symm.within (header_within sizeofType y)).symm

/-- A block is apart from a region that is fresh. -/
theorem apart_of_fresh {r : Region} (hr : s.mem.Fresh r)
    (hx : IsBlock nPoolSize sizeofType buf s x) : (blockAt sizeofType x).Apart r := by
  obtain ⟨t, ht, hwithin⟩ := h.within hx
  exact (hr.2 t ht).1.symm.within hwithin

/-- The first free block is taken out. -/
theorem pop (hx : s.pool.pHeader = some x) :
    x ∈ listed nPoolSize sizeofType buf ∧ x ∉ s.live ∧
    ∃ node, s.mem.headers x = some node ∧ node.Idle ∧
      Inv nPoolSize sizeofType buf ⟨{ s.pool with pHeader := node.pNext },
        s.mem.put x { node with nRef := 1 }, s.live ++ [x]⟩ := by
  have hfree := h.free
  rw [hx] at hfree
  have hmem : ∀ y, y ∈ s.live ++ [x] ↔ y ∈ s.live ∨ y = x := fun _ => mem_snoc
  obtain ⟨hlist, hlive, r, hr, hrest⟩ := hfree.pop fun y _ =>
    (hmem y : y ∈ {y | y ∈ s.live ++ [x]} ↔ y ∈ {y | y ∈ s.live} ∨ y = x)
  obtain ⟨node, hnode, hidle⟩ := h.idle x hlist hlive
  obtain rfl : node.pNext = r := Option.some.inj ((RawMemory.view_eq _ hnode).symm.trans hr)
  refine ⟨hlist, hlive, node, hnode, hidle, ?_⟩
  have hput : ∀ y, IsBlock nPoolSize sizeofType buf s y → y ≠ x →
      (s.mem.put x { node with nRef := 1 }).headers y = s.mem.headers y := fun y hy hne =>
    h.headers_put hy (.inl hlist) hne _
  have hblock : ∀ y, y ∈ listed nPoolSize sizeofType buf ∨ y ∈ s.live ++ [x] →
      IsBlock nPoolSize sizeofType buf s y := by
    rintro y (hy | hy)
    · exact .inl hy
    · rcases (hmem y).mp hy with hy | rfl
      · exact .inr hy
      · exact .inl hlist
  refine ⟨h.fits, h.pBuf, h.bases, h.buffer, ?_, fun y hy hnot => ?_,
    fun y z hy hz hne => h.apart y z (hblock y hy) (hblock z hz) hne, fun y hy => ?_, ?_,
    fun y hy hnot => ?_⟩
  · exact List.concat_eq_append ▸ List.Nodup.concat hlive h.nodup
  · rcases (hmem y).mp hy with hy | rfl
    · exact h.own y hy hnot
    · exact absurd hlist hnot
  · rcases (hmem y).mp hy with hy | rfl
    · obtain ⟨node', hnode', hheader⟩ := h.header y hy
      have hne : y ≠ x := fun heq => hlive (heq ▸ hy)
      exact ⟨node', (hput y (.inr hy) hne).trans hnode', hheader⟩
    · exact ⟨_, RawMemory.headers_put_self, rfl, iff_of_true hidle.nPool hlist⟩
  · refine hrest.congr (fun y hy hfree => RawMemory.view_congr _ ?_) fun _ _ => Iff.rfl
    exact hput y (.inl hy) fun heq => hfree ((hmem y).mpr (.inr heq))
  · obtain ⟨hfree, hne⟩ := not_or.mp ((hmem y).not.mp hnot)
    obtain ⟨node', hnode', hidle'⟩ := h.idle y hy hfree
    exact ⟨node', (hput y (.inl hy) hne).trans hnode', hidle'⟩

/-- A block is `new`. -/
theorem allocOwn (hr : s.mem.Fresh (blockAt sizeofType p)) :
    p ∉ listed nPoolSize sizeofType buf ∧
    (∀ y, IsBlock nPoolSize sizeofType buf s y →
      (blockAt sizeofType p).Apart (blockAt sizeofType y)) ∧
    Inv nPoolSize sizeofType buf ⟨s.pool,
      (s.mem.alloc (blockAt sizeofType p)).put p ⟨none, -1, 1, false⟩, s.live ++ [p]⟩ := by
  have happ : ∀ y, IsBlock nPoolSize sizeofType buf s y →
      (blockAt sizeofType p).Apart (blockAt sizeofType y) := fun y hy =>
    (h.apart_of_fresh hr hy).symm
  have hne : ∀ y, IsBlock nPoolSize sizeofType buf s y → y ≠ p := fun y hy =>
    ((happ y hy).symm).base_ne (blockSize_pos _) (blockSize_pos _)
  have hlist : p ∉ listed nPoolSize sizeofType buf := fun hp => hne p (.inl hp) rfl
  have hlive : p ∉ s.live := fun hp => hne p (.inr hp) rfl
  refine ⟨hlist, happ, ?_⟩
  have hmem : ∀ y, y ∈ s.live ++ [p] ↔ y ∈ s.live ∨ y = p := fun _ => mem_snoc
  have hheaders : ∀ y, IsBlock nPoolSize sizeofType buf s y →
      ((s.mem.alloc (blockAt sizeofType p)).put p ⟨none, -1, 1, false⟩).headers y =
        s.mem.headers y := by
    intro y hy
    have hy' := (happ y hy).symm.within (header_within sizeofType y)
    rw [RawMemory.headers_put_of_apart sizeofNodeHeader_pos
      (hy'.symm.within (header_within sizeofType p)).symm]
    exact RawMemory.headers_alloc_of_apart hy'
  have hblock : ∀ y, y ∈ listed nPoolSize sizeofType buf ∨ y ∈ s.live ++ [p] → y ≠ p →
      IsBlock nPoolSize sizeofType buf s y := fun y hy hyp =>
    hy.imp_right fun hy => ((hmem y).mp hy).resolve_right hyp
  refine ⟨h.fits, h.pBuf, h.bases.alloc hr, List.mem_append_left _ h.buffer, ?_,
    fun y hy hnot => ?_, fun y z hy hz hyz => ?_, fun y hy => ?_, ?_, fun y hy hnot => ?_⟩
  · exact List.concat_eq_append ▸ List.Nodup.concat hlive h.nodup
  · rcases (hmem y).mp hy with hy | rfl
    · obtain ⟨hregion, hbuf⟩ := h.own y hy hnot
      exact ⟨List.mem_append_left _ hregion, hbuf⟩
    · exact ⟨List.mem_append_right _ (List.mem_singleton_self _), (hr.2 _ h.buffer).1⟩
  · by_cases hyp : y = p
    · subst hyp
      exact happ z (hblock z hz (Ne.symm hyz))
    · by_cases hzp : z = p
      · subst hzp
        exact (happ y (hblock y hy hyz)).symm
      · exact h.apart y z (hblock y hy hyp) (hblock z hz hzp) hyz
  · rcases (hmem y).mp hy with hy | rfl
    · obtain ⟨node', hnode', hheader⟩ := h.header y hy
      exact ⟨node', (hheaders y (.inr hy)).trans hnode', hheader⟩
    · exact ⟨_, RawMemory.headers_put_self, rfl, iff_of_false nofun hlist⟩
  · refine h.free.congr (fun y hy _ => RawMemory.view_congr _ (hheaders y (.inl hy))) fun y hy => ?_
    exact (hmem y).trans (or_iff_left (hne y (.inl hy)))
  · have hfree : y ∉ s.live := fun hy' => hnot ((hmem y).mpr (.inl hy'))
    obtain ⟨node', hnode', hidle'⟩ := h.idle y hy hfree
    exact ⟨node', (hheaders y (.inl hy)).trans hnode', hidle'⟩

/-- A live block of the list is put back. -/
theorem push (hx : x ∈ s.live) (hlist : x ∈ listed nPoolSize sizeofType buf) (node : NodeHeader)
    (hidle : node.Idle) (hnext : node.pNext = s.pool.pHeader) :
    Inv nPoolSize sizeofType buf ⟨{ s.pool with pHeader := some x }, s.mem.put x node,
      s.live.filter (· ≠ x)⟩ := by
  have hmem : ∀ y, y ∈ s.live.filter (· ≠ x) ↔ y ∈ s.live ∧ y ≠ x := fun _ => mem_filter_ne
  have hput : ∀ y, IsBlock nPoolSize sizeofType buf s y → y ≠ x →
      (s.mem.put x node).headers y = s.mem.headers y := fun y hy hne =>
    h.headers_put hy (.inl hlist) hne _
  have hblock : ∀ y, y ∈ listed nPoolSize sizeofType buf ∨ y ∈ s.live.filter (· ≠ x) →
      IsBlock nPoolSize sizeofType buf s y := fun y hy =>
    hy.imp_right fun hy => ((hmem y).mp hy).1
  refine ⟨h.fits, h.pBuf, h.bases, h.buffer, h.nodup.filter _,
    fun y hy hnot => h.own y ((hmem y).mp hy).1 hnot,
    fun y z hy hz hne => h.apart y z (hblock y hy) (hblock z hz) hne, fun y hy => ?_, ?_,
    fun y hy hnot => ?_⟩
  · obtain ⟨hy, hne⟩ := (hmem y).mp hy
    obtain ⟨node', hnode', hheader⟩ := h.header y hy
    exact ⟨node', (hput y (.inr hy) hne).trans hnode', hheader⟩
  · refine h.free.push hlist hx ?_ (fun y hy hfree => RawMemory.view_congr _ ?_) fun y _ => hmem y
    · exact (RawMemory.view_eq _ RawMemory.headers_put_self).trans (congrArg some hnext)
    · refine hput y (.inl hy) ?_
      rintro rfl
      exact hfree hx
  · by_cases hyx : y = x
    · subst hyx
      exact ⟨node, RawMemory.headers_put_self, hidle⟩
    · obtain ⟨node', hnode', hidle'⟩ := h.idle y hy fun hy' => hnot ((hmem y).mpr ⟨hy', hyx⟩)
      exact ⟨node', (hput y (.inl hy) hyx).trans hnode', hidle'⟩

/-- A live block that is not of the list is deleted. -/
theorem release (hx : x ∈ s.live) (hlist : x ∉ listed nPoolSize sizeofType buf)
    (node : NodeHeader) :
    Inv nPoolSize sizeofType buf ⟨s.pool, (s.mem.put x node).release (blockAt sizeofType x),
      s.live.filter (· ≠ x)⟩ := by
  have hmem : ∀ y, y ∈ s.live.filter (· ≠ x) ↔ y ∈ s.live ∧ y ≠ x := fun _ => mem_filter_ne
  have hheaders : ∀ y, IsBlock nPoolSize sizeofType buf s y → y ≠ x →
      ((s.mem.put x node).release (blockAt sizeofType x)).headers y = s.mem.headers y := by
    intro y hy hne
    have happ := (h.apart y x hy (.inr hx) hne).within (header_within sizeofType y)
    rw [RawMemory.headers_release_of_apart happ]
    exact h.headers_put hy (.inr hx) hne node
  have hbases : (s.mem.put x node).Bases := h.bases
  -- the other regions stay, as their bases are others
  have hregions : ∀ r ∈ s.mem.regions, r ≠ blockAt sizeofType x →
      r ∈ ((s.mem.put x node).release (blockAt sizeofType x)).regions := fun r hr hne =>
    hbases.mem_release.mpr ⟨hne, hr⟩
  have hblock : ∀ y, y ∈ listed nPoolSize sizeofType buf ∨ y ∈ s.live.filter (· ≠ x) →
      IsBlock nPoolSize sizeofType buf s y := fun y hy =>
    hy.imp_right fun hy => ((hmem y).mp hy).1
  refine ⟨h.fits, h.pBuf, hbases.release _, hregions _ h.buffer fun heq => ?_, h.nodup.filter _,
    fun y hy hnot => ?_, fun y z hy hz hne => h.apart y z (hblock y hy) (hblock z hz) hne,
    fun y hy => ?_, ?_, fun y hy hnot => ?_⟩
  · have happ := (h.own x hx hlist).2
    rw [heq] at happ
    exact absurd rfl (happ.base_ne (blockSize_pos _) (blockSize_pos _))
  · obtain ⟨hy, hne⟩ := (hmem y).mp hy
    obtain ⟨hregion, hbuf⟩ := h.own y hy hnot
    exact ⟨hregions _ hregion fun heq => hne (Region.mk.inj heq).1, hbuf⟩
  · obtain ⟨hy, hne⟩ := (hmem y).mp hy
    obtain ⟨node', hnode', hheader⟩ := h.header y hy
    exact ⟨node', (hheaders y (.inr hy) hne).trans hnode', hheader⟩
  · have hne : ∀ y ∈ listed nPoolSize sizeofType buf, y ≠ x := by
      rintro y hy rfl
      exact hlist hy
    refine h.free.congr (fun y hy _ => ?_) fun y hy => ?_
    · exact RawMemory.view_congr _ (hheaders y (.inl hy) (hne y hy))
    · exact (hmem y).trans (and_iff_left (hne y hy))
  · have hyx : y ≠ x := by
      rintro rfl
      exact hlist hy
    obtain ⟨node', hnode', hidle'⟩ := h.idle y hy fun hy' => hnot ((hmem y).mpr ⟨hy', hyx⟩)
    exact ⟨node', (hheaders y (.inl hy) hyx).trans hnode', hidle'⟩

/-! ## The calls -/

/-- The blocks in the buffer are the ones of the list. -/
theorem inPool_iff (hx : IsBlock nPoolSize sizeofType buf s x) :
    InPool nPoolSize sizeofType s x ↔ x ∈ listed nPoolSize sizeofType buf := by
  have hiff : InPool nPoolSize sizeofType s x ↔
      (Region.mk x sizeofNodeHeader).Within ⟨buf, nPoolSize * blockSize sizeofType⟩ := by
    rw [InPool, h.pBuf, h.fits.bufSize_eq]
    exact decide_eq_true_iff
  rw [hiff]
  refine ⟨fun hwithin => ?_, fun hlist => ?_⟩
  · by_contra hlist
    have happ := (h.own x (hx.resolve_left hlist) hlist).2.within (header_within sizeofType x)
    unfold Region.Apart Region.Within Region.fin at *
    have hpos := sizeofNodeHeader_pos
    dsimp only at *
    omega
  · exact (header_within sizeofType x).trans (within_of_listed hlist h.fits.pos)

/-- A block of the list is free exactly if not all of them are live. -/
theorem length_livePooled_lt : (livePooled nPoolSize sizeofType s).length <
    (listed nPoolSize sizeofType buf).length ↔
      ∃ y ∈ listed nPoolSize sizeofType buf, y ∉ s.live := by
  have hmem : ∀ y, y ∈ livePooled nPoolSize sizeofType s ↔
      y ∈ s.live ∧ y ∈ listed nPoolSize sizeofType buf := fun y => by
    rw [livePooled, List.mem_filter, decide_eq_true_eq]
    exact and_congr_right fun hy => h.inPool_iff (.inr hy)
  constructor
  · intro hlt
    by_contra hnot
    have hsub : listed nPoolSize sizeofType buf ⊆ livePooled nPoolSize sizeofType s := fun y hy =>
      (hmem y).mpr ⟨by_contra fun hlive => hnot ⟨y, hy, hlive⟩, hy⟩
    have hle := (List.subperm_of_subset (nodup_listed _ _ _ h.fits.pos) hsub).length_le
    omega
  · rintro ⟨y, hy, hlive⟩
    have hnodup : (y :: livePooled nPoolSize sizeofType s).Nodup :=
      List.nodup_cons.mpr ⟨fun hy' => hlive ((hmem y).mp hy').1, h.nodup.filter _⟩
    have hsub : y :: livePooled nPoolSize sizeofType s ⊆ listed nPoolSize sizeofType buf :=
      List.cons_subset.mpr ⟨hy, fun z hz => ((hmem z).mp hz).2⟩
    exact (List.subperm_of_subset hnodup hsub).length_le

/-- `allocObjMemory` takes a block of the list, if not all of them are live. -/
theorem act_allocObjMemory (block : ℕ) :
    s.act sizeofType (.allocObjMemory block) = some (.error .notFresh) ∨
    ∃ t x, s.act sizeofType (.allocObjMemory block) = some (.ok t) ∧ t.live = s.live ++ [x] ∧
      Inv nPoolSize sizeofType buf t ∧
      (∀ y ∈ s.live, (blockAt sizeofType x).Apart (blockAt sizeofType y)) ∧
      (InPool nPoolSize sizeofType t x ↔ (livePooled nPoolSize sizeofType s).length <
        (listed nPoolSize sizeofType buf).length) := by
  cases hheader : s.pool.pHeader with
  | none =>
    have hall : ¬∃ y ∈ listed nPoolSize sizeofType buf, y ∉ s.live := by
      rintro ⟨y, hy, hlive⟩
      have hfree := h.free
      rw [hheader] at hfree
      exact hlive (hfree.mem_live_of_none hy)
    by_cases hr : s.mem.Fresh (blockAt sizeofType block)
    · right
      obtain ⟨hlist, happ, hinv⟩ := h.allocOwn hr
      refine ⟨_, block, ?_, rfl, hinv, fun y hy => happ y (.inr hy), ?_⟩
      · have hmalloc : s.mem.malloc block (realSize sizeofType) =
            .ok (s.mem.alloc (blockAt sizeofType block)) := by
          rw [h.fits.realSize_eq]
          exact RawMemory.malloc_eq hr
        have hwrite := RawMemory.write_eq (RawMemory.holds_alloc_self (m := s.mem)
          (header_within sizeofType block)) ⟨none, -1, 1, false⟩
        rw [act, allocObjMemory, hheader]
        dsimp only
        rw [hmalloc, Fallible.ok_bind, hwrite]
        rfl
      · rw [h.length_livePooled_lt, hinv.inPool_iff (.inr (by simp))]
        exact iff_of_false hlist hall
    · left
      rw [act, allocObjMemory, hheader]
      dsimp only
      rw [h.fits.realSize_eq]
      exact congrArg _ (congrArg (· >>= _) (congrArg (· >>= _) (RawMemory.malloc_eq_of_not hr)))
  | some x =>
    right
    obtain ⟨hlist, hlive, node, hnode, hidle, hinv⟩ := h.pop hheader
    refine ⟨_, x, ?_, rfl, hinv, fun y hy => ?_, ?_⟩
    · have hone : int32 (node.nRef + 1) = 1 := by
        rw [hidle.nRef]
        decide
      rw [act, allocObjMemory, hheader]
      dsimp only
      rw [RawMemory.read_eq hnode, Fallible.ok_bind, assert_of hidle.nRef, Fallible.ok_bind, hone,
        RawMemory.write_eq (h.holds (.inl hlist))]
      rfl
    · exact h.apart x y (.inl hlist) (.inr hy) fun heq => hlive (heq ▸ hy)
    · rw [h.length_livePooled_lt, hinv.inPool_iff (.inl hlist)]
      exact iff_of_true hlist ⟨x, hlist, hlive⟩

/-- `freeObjMemory` of a live block. -/
theorem act_freeObjMemory (hx : x ∈ s.live) :
    ∃ t, s.act sizeofType (.freeObjMemory (x + sizeofNodeHeader)) = some (.ok t) ∧
      Inv nPoolSize sizeofType buf t := by
  have hlive : s.live.filter (· + sizeofNodeHeader ≠ x + sizeofNodeHeader) =
      s.live.filter (· ≠ x) := by
    refine List.filter_congr fun y _ => decide_eq_decide.mpr (not_congr ?_)
    exact Nat.add_right_cancel_iff
  obtain ⟨⟨pNext, nID, nRef, nPool⟩, hnode, hnRef, hnPool⟩ := h.header x hx
  obtain rfl : nRef = 1 := hnRef
  have hzero : int32 (1 - 1) = 0 := by decide
  have hsub : x + sizeofNodeHeader - sizeofNodeHeader = x := Nat.add_sub_cancel ..
  have hmem : x + sizeofNodeHeader ∈ s.live.map (· + sizeofNodeHeader) := List.mem_map_of_mem hx
  have hholds := h.holds (.inr hx)
  -- the count changes first
  let m : NodeMemory := s.mem.put x ⟨pNext, nID, 0, nPool⟩
  have hwrite : s.mem.write x ⟨pNext, nID, 0, nPool⟩ = .ok m := RawMemory.write_eq hholds _
  by_cases hlist : x ∈ listed nPoolSize sizeofType buf
  · obtain rfl : nPool = true := hnPool.mpr hlist
    have hwrite' : m.write x ⟨s.pool.pHeader, nID, 0, true⟩ =
        .ok (m.put x ⟨s.pool.pHeader, nID, 0, true⟩) := by
      have hholds' : m.Holds x := hholds
      exact RawMemory.write_eq hholds' _
    have hcall : s.pool.freeObjMemory s.mem (x + sizeofNodeHeader) =
        .ok ({ s.pool with pHeader := some x }, s.mem.put x ⟨s.pool.pHeader, nID, 0, true⟩) := by
      rw [freeObjMemory]
      simp only [hsub, RawMemory.read_eq hnode, Fallible.ok_bind, assert_of, hzero, if_true,
        hwrite, ne_eq, not_true_eq_false, if_false]
      rw [hwrite', RawMemory.put_put]
      rfl
    refine ⟨_, ?_, h.push hx hlist ⟨s.pool.pHeader, nID, 0, true⟩ ⟨rfl, rfl⟩ rfl⟩
    rw [act, if_pos hmem, hcall, Fallible.ok_bind]
    dsimp only
    rw [hlive]
    rfl
  · obtain rfl : nPool = false := Bool.eq_false_iff.mpr fun htrue => hlist (hnPool.mp htrue)
    have hfree : m.free x = .ok (m.release (blockAt sizeofType x)) := by
      have hbases : m.Bases := h.bases
      exact hbases.free_eq (h.own x hx hlist).1
    have hcall : s.pool.freeObjMemory s.mem (x + sizeofNodeHeader) =
        .ok (s.pool, m.release (blockAt sizeofType x)) := by
      rw [freeObjMemory]
      simp only [hsub, RawMemory.read_eq hnode, Fallible.ok_bind, assert_of, hzero,
        Bool.false_eq_true, hwrite, ne_eq, not_true_eq_false, if_false]
      rw [hfree]
      rfl
    refine ⟨_, ?_, h.release hx hlist ⟨pNext, nID, 0, false⟩⟩
    rw [act, if_pos hmem, hcall, Fallible.ok_bind]
    dsimp only
    rw [hlive]
    rfl

end Inv

theorem act_of_step {r : Except MemFault PoolState}
    (h : (objectPool nPoolSize sizeofType).step s a r) : s.act sizeofType a = some r := by
  obtain ⟨-, _, hact⟩ := h
  exact hact

/-- Every call keeps the invariant. -/
theorem Inv.step (h : Inv nPoolSize sizeofType buf s)
    (hstep : (objectPool nPoolSize sizeofType).step s a (.ok t)) :
    Inv nPoolSize sizeofType buf t := by
  have hact := act_of_step hstep
  cases a with
  | allocObjMemory block =>
    rcases h.act_allocObjMemory block with herror | ⟨u, x, hok, -, hinv, -⟩
    · exact absurd (Option.some.inj (herror.symm.trans hact)) nofun
    · obtain rfl := Except.ok.inj (Option.some.inj (hok.symm.trans hact))
      exact hinv
  | freeObjMemory pMem =>
    by_cases hmem : pMem ∈ s.live.map (· + sizeofNodeHeader)
    · obtain ⟨x, hx, rfl⟩ := List.mem_map.mp hmem
      obtain ⟨u, hok, hinv⟩ := h.act_freeObjMemory hx
      obtain rfl := Except.ok.inj (Option.some.inj (hok.symm.trans hact))
      exact hinv
    · rw [act, if_neg hmem] at hact
      exact absurd hact nofun

/-- In every state of every run `allocObjMemory` takes a block of the list, if not all of them are
live. -/
theorem alloc_of_reachable (hfit : Fits nPoolSize sizeofType) {block : ℕ}
    {r : Except MemFault PoolState} (hs : (objectPool nPoolSize sizeofType).Reachable s)
    (hstep : (objectPool nPoolSize sizeofType).step s (.allocObjMemory block) r) :
    ∃ buf t x, r = .ok t ∧ t.live = s.live ++ [x] ∧
      (∀ y ∈ s.live, (blockAt sizeofType x).Apart (blockAt sizeofType y)) ∧
      (InPool nPoolSize sizeofType t x ↔ (livePooled nPoolSize sizeofType s).length <
        (listed nPoolSize sizeofType buf).length) := by
  have hinv : ∃ buf, Inv nPoolSize sizeofType buf s := by
    obtain ⟨s₀, tr, ⟨buf, -, hnew⟩, hrun⟩ := hs
    exact ⟨buf, hrun.invariant (fun _ _ _ h hstep => h.step hstep) ((new_ok hnew).inv hfit)⟩
  obtain ⟨buf, hinv⟩ := hinv
  have hact := act_of_step hstep
  rcases hinv.act_allocObjMemory block with herror | ⟨t, x, hok, hlive, -, happ, hin⟩
  · have hpromise : notFresh (s.act sizeofType (.allocObjMemory block)) = false := hstep.1
    rw [herror] at hpromise
    exact absurd hpromise nofun
  · exact ⟨buf, t, x, Option.some.inj (hact.symm.trans hok), hlive, happ, hin⟩

/-! ## Larger pools -/

/-- The first free block is taken out, if it is not referenced. -/
theorem step_allocObjMemory_some (nPoolSize sizeofType : ℕ) (hx : s.pool.pHeader = some x)
    (hnode : s.mem.headers x = some node) (hnRef : node.nRef = 0) (hholds : s.mem.Holds x)
    (block : ℕ) :
    (objectPool nPoolSize sizeofType).step s (.allocObjMemory block)
      (.ok ⟨{ s.pool with pHeader := node.pNext }, s.mem.put x { node with nRef := 1 },
        s.live ++ [x]⟩) := by
  have hone : int32 (node.nRef + 1) = 1 := by
    rw [hnRef]
    decide
  have hact : s.act sizeofType (.allocObjMemory block) =
      some (.ok ⟨{ s.pool with pHeader := node.pNext }, s.mem.put x { node with nRef := 1 },
        s.live ++ [x]⟩) := by
    rw [act, allocObjMemory, hx]
    dsimp only
    rw [RawMemory.read_eq hnode, Fallible.ok_bind, assert_of hnRef, Fallible.ok_bind, hone,
      RawMemory.write_eq hholds]
    rfl
  refine ⟨?_, 0, hact⟩
  rw [Promise, hact]
  rfl

/-- `allocObjMemory` asserts that the first free block is not referenced. -/
theorem step_allocObjMemory_assertion (nPoolSize sizeofType : ℕ) (hx : s.pool.pHeader = some x)
    (hnode : s.mem.headers x = some node) (hnRef : node.nRef ≠ 0) (block : ℕ) :
    (objectPool nPoolSize sizeofType).step s (.allocObjMemory block) (.error .assertion) := by
  have hact : s.act sizeofType (.allocObjMemory block) = some (.error .assertion) := by
    rw [act, allocObjMemory, hx]
    dsimp only
    rw [RawMemory.read_eq hnode, Fallible.ok_bind, assert_of_not hnRef]
    rfl
  refine ⟨?_, 0, hact⟩
  rw [Promise, hact]
  rfl

/-- A block is `new`, if the list is empty. -/
theorem step_allocObjMemory_none (nPoolSize : ℕ) (hx : s.pool.pHeader = none) {block : ℕ}
    (hr : s.mem.Fresh ⟨block, realSize sizeofType⟩) :
    ∃ r, (objectPool nPoolSize sizeofType).step s (.allocObjMemory block) r ∧
      ∀ t, r = .ok t → t.pool = s.pool ∧ t.live = s.live ++ [block] := by
  let m := s.mem.alloc ⟨block, realSize sizeofType⟩
  have hact : s.act sizeofType (.allocObjMemory block) =
      some ((m.write block ⟨none, -1, 1, false⟩).map fun m => ⟨s.pool, m, s.live ++ [block]⟩) := by
    rw [act, allocObjMemory, hx]
    dsimp only
    rw [RawMemory.malloc_eq hr, Fallible.ok_bind]
    cases m.write block ⟨none, -1, 1, false⟩ <;> rfl
  refine ⟨_, ⟨?_, 0, hact⟩, fun t ht => ?_⟩
  · rw [Promise, hact]
    unfold RawMemory.write
    split <;> rfl
  · unfold RawMemory.write at ht
    split at ht
    · obtain rfl := Except.ok.inj ht
      exact ⟨rfl, rfl⟩
    · exact absurd ht nofun

end PoolState

namespace HoldsObjects

open PoolState

variable {nPoolSize sizeofType : ℕ} (h : HoldsObjects nPoolSize sizeofType)
include h

/-- The list of `initPool` has two blocks at most, so the third call has none. -/
theorem le_two : nPoolSize ≤ 2 := by
  by_contra hlt
  obtain ⟨s₀, hnew⟩ := h.construct 1 Nat.one_pos
  have hs₀ := new_ok hnew
  have hinit : (objectPool nPoolSize sizeofType).init s₀ := ⟨1, Nat.one_pos, hnew⟩
  obtain ⟨hlast, hlinking⟩ := hs₀.more (by omega)
  set last := lastBlock nPoolSize sizeofType 1
  obtain ⟨⟨⟨pNext, nID, nRef, nPool⟩, hnode, hidle, hnext⟩, hlinked⟩ := hlinking
  obtain rfl : pNext = some last := hnext
  -- the first call returns the first block
  let s₁ : PoolState := ⟨⟨some 1, some last⟩, s₀.mem.put 1 ⟨some last, nID, 1, nPool⟩, [1]⟩
  have hstep₀ : (objectPool nPoolSize sizeofType).step s₀ (.allocObjMemory 1) (.ok s₁) := by
    have hstep := step_allocObjMemory_some nPoolSize sizeofType (congrArg pHeader hs₀.pool) hnode
      hidle.nRef hs₀.holds 1
    rw [hs₀.pool, hs₀.live] at hstep
    exact hstep
  have hrun₁ := Machine.Run.single hstep₀
  by_cases hcyclic : last = 1
  · -- the last block is the first one again
    have hnode₁ : s₁.mem.headers last = some ⟨some last, nID, 1, nPool⟩ :=
      (congrArg s₁.mem.headers hcyclic).trans RawMemory.headers_put_self
    have hstep₁ := step_allocObjMemory_assertion nPoolSize sizeofType rfl hnode₁ one_ne_zero 1
    obtain ⟨t, x, ht, -⟩ := h.alloc s₁ 1 _ ⟨s₀, _, hinit, hrun₁⟩ hstep₁
    exact absurd ht nofun
  · obtain ⟨happ, ⟨pNext', nID', nRef', nPool'⟩, hnode', hidle', hnext'⟩ := hlinked hcyclic
    obtain rfl : pNext' = none := hnext'
    have hnode₁ : s₁.mem.headers last = some ⟨none, nID', nRef', nPool'⟩ :=
      (RawMemory.headers_put_of_apart sizeofNodeHeader_pos happ).trans hnode'
    have hlast₁ : s₁.mem.Holds last := hlast
    let s₂ : PoolState := ⟨⟨some 1, none⟩, s₁.mem.put last ⟨none, nID', 1, nPool'⟩, [1, last]⟩
    have hstep₁ : (objectPool nPoolSize sizeofType).step s₁ (.allocObjMemory 1) (.ok s₂) :=
      step_allocObjMemory_some nPoolSize sizeofType rfl hnode₁ hidle'.nRef hlast₁ 1
    -- the list is empty
    have hfresh : s₂.mem.Fresh ⟨1 + bufSize nPoolSize sizeofType + 1, realSize sizeofType⟩ := by
      refine ⟨Nat.succ_pos _, fun r hr => ?_⟩
      have hregions : s₂.mem.regions = [⟨1, bufSize nPoolSize sizeofType⟩] := hs₀.regions
      rw [hregions] at hr
      obtain rfl := List.mem_singleton.mp hr
      unfold Region.Apart Region.fin
      dsimp only
      omega
    obtain ⟨r, hstep₂, hr⟩ := step_allocObjMemory_none nPoolSize rfl hfresh
    obtain ⟨t, x, rfl, hlive, -, hin⟩ :=
      h.alloc s₂ _ r ⟨s₀, _, hinit, hrun₁.snoc hstep₁⟩ hstep₂
    obtain ⟨hpool, hlive'⟩ := hr t rfl
    obtain rfl := List.singleton_inj.mp (List.append_cancel_left (hlive.symm.trans hlive'))
    have hlength : (livePooled nPoolSize sizeofType s₂).length ≤ 2 := List.length_filter_le _ _
    have hpooled := hin.mpr (by omega)
    rw [InPool, hpool] at hpooled
    have hwithin := of_decide_eq_true hpooled
    unfold Region.Within Region.fin at hwithin
    dsimp only at hwithin
    omega

/-- A buffer whose size wraps around has no room for its headers. -/
theorem fits (hpos : 1 ≤ nPoolSize) (hsize : sizeofType < 18446744073709551616) :
    Fits nPoolSize sizeofType := by
  have hle := h.le_two
  obtain ⟨s, hnew⟩ := h.construct 1 Nat.one_pos
  have hs := new_ok hnew
  have hroom : ∀ x, s.mem.Holds x → x + sizeofNodeHeader ≤ 1 + bufSize nPoolSize sizeofType := by
    rintro x ⟨r, hr, hwithin⟩
    rw [hs.regions] at hr
    obtain rfl := List.mem_singleton.mp hr
    exact hwithin.2
  have hfirst := hroom 1 hs.holds
  have hlast := fun htwo => hroom _ (hs.more htwo).1
  refine ⟨hpos, ?_⟩
  simp only [lastBlock, bufSize, realSize, ← Nat.cast_mul, ← Nat.cast_add, sizeT_natCast_mod]
    at hfirst hlast
  unfold sizeofNodeHeader at hfirst hlast
  unfold blockSize sizeofNodeHeader
  obtain rfl | rfl : nPoolSize = 1 ∨ nPoolSize = 2 := by omega
  · omega
  · have hlast := hlast (le_refl _)
    omega

end HoldsObjects

/-- An object pool holds its objects, if there are one or two and the size of the buffer is a
`size_t`, and only then. -/
theorem object_pool_holds_iff {nPoolSize sizeofType : ℕ} (hpos : 1 ≤ nPoolSize)
    (hsize : sizeofType < 18446744073709551616) : HoldsObjects nPoolSize sizeofType ↔
      nPoolSize ≤ 2 ∧ nPoolSize * (sizeofNodeHeader + sizeofType) < 18446744073709551616 := by
  constructor
  · exact fun h => ⟨h.le_two, (h.fits hpos hsize).size⟩
  · rintro ⟨hle, hbuf⟩
    have hfit : Fits nPoolSize sizeofType := ⟨hpos, hbuf⟩
    refine ⟨fun buf => PoolState.new_fits hfit, fun s block r hs hstep => ?_⟩
    obtain ⟨buf, t, x, hr, hlive, happ, hin⟩ := PoolState.alloc_of_reachable hfit hs hstep
    rw [PoolState.length_listed_of_le hpos hle] at hin
    exact ⟨t, x, hr, hlive, happ, hin⟩

/-- A pool of two objects of 8 bytes. -/
theorem object_pool_holds_iff_two : HoldsObjects 2 8 :=
  (object_pool_holds_iff (by decide) (by decide)).mpr ⟨le_refl 2, by decide⟩

open PoolState in
/-- A pool of three objects of 8 bytes : the third call returns a block that is not in it. -/
theorem not_object_pool_holds : ¬∀ nPoolSize sizeofType : ℕ, 1 ≤ nPoolSize →
    HoldsObjects nPoolSize sizeofType := by
  intro hall
  have h := hall 3 8 (by decide)
  obtain ⟨s₀, hnew⟩ := h.construct 1000 (by decide)
  let next := Machine.next? (Promise 8) (fun _ => act 8) 0
  have heval : ((PoolState.new 3 8 1000).toOption.bind fun s =>
      ([.allocObjMemory 1, .allocObjMemory 1].foldlM next s).map fun s =>
        (s.live, (livePooled 3 8 s).length, (next s (.allocObjMemory 5000)).map fun t =>
          (t.live, decide (InPool 3 8 t 5000)))) =
      some ([1000, 1064], 2, some ([1000, 1064, 5000], false)) := by
    decide +kernel
  rw [hnew] at heval
  obtain ⟨tr, s, hrun, -, hs⟩ := Machine.Run.of_next?_map (objectPool 3 8).init heval
  obtain ⟨hlive, hs⟩ := Prod.mk.inj hs
  obtain ⟨hlength, hs⟩ := Prod.mk.inj hs
  obtain ⟨t, ht, hs⟩ := Option.map_eq_some_iff.mp hs
  obtain ⟨hlive', hout⟩ := Prod.mk.inj hs
  have hstep := Machine.step_of_next? (objectPool 3 8).init ht
  obtain ⟨t', x, ht', hlivex, -, hin⟩ :=
    h.alloc s 5000 _ ⟨s₀, tr, ⟨1000, by decide, hnew⟩, hrun⟩ hstep
  obtain rfl := Except.ok.inj ht'
  obtain rfl : x = 5000 := by
    rw [hlive, hlive'] at hlivex
    have hcons : [1000, 1064] ++ [5000] = [1000, 1064] ++ [x] := hlivex
    exact (List.singleton_inj.mp (List.append_cancel_left hcons)).symm
  exact of_decide_eq_false hout (hin.mpr (by omega))

end CellNet
