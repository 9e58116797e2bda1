import CellNet.MemoryCalls

/-!
# Safety of the memory pool

`Inv.step` : every call keeps `Inv`, whatever the counts. Where no block is referenced twice, no
call is a fault (`Inv.call`), so in every state of such a run the blocks are as they should be
(`memory_pool_safe`), if the buffers of the pools have a size that is a `size_t`. A number of blocks
for which the size wraps around is too much for the buffer (`not_memory_pool_safe`).
-/

namespace CellNet

/-- The memory the caller may use. -/
def LiveBlock.payload (b : LiveBlock) : Region :=
  ⟨b.pMem, match b.pool with
    | some i => i.nSize
    | none => b.nSize⟩

/-- A call of `allocMem` or `freeMem`. -/
def MgrAct.NoAddRef : MgrAct → Prop
  | .allocMem .. | .freeMem _ => True
  | .addRef _ => False

namespace MgrState

variable {blockNum : Pool → ℕ} {s t : MgrState} {a : MgrAct} {b : LiveBlock}

/-- All blocks are referenced once. -/
def Once (s : MgrState) : Prop :=
  ∀ b ∈ s.live, ∃ block, s.mem.headers b.pBlock = some block ∧ block.nRef = 1

/-- The blocks and the free lists are as they should be, and no call is a fault. -/
structure Safe (blockNum : Pool → ℕ) (s : MgrState) : Prop where
  size : ∀ b ∈ s.live, b.nSize ≤ b.payload.size
  allocated : ∀ b ∈ s.live, ∃ r ∈ s.mem.regions, b.payload.Within r
  apart : s.live.Pairwise fun b c => b.payload.Apart c.payload
  free : ∀ i, ∃ free, LinkedFrom (s.mem.view MemoryBlock.pNext) (s.mgr.get i).pHeader free ∧
    free.Nodup ∧ (∀ x, x ∈ free ↔ x ∈ starts blockNum s i ∧ x ∉ s.liveSet) ∧
    ∀ x ∈ free, ∃ block, s.mem.headers x = some block ∧ block.nRef = 0
  calls : ∀ a, a.NoAddRef → ∀ e, ¬(memoryMgr blockNum).step s a (.error e)

theorem act_of_step {r : Except MemFault MgrState} (h : (memoryMgr blockNum).step s a r) :
    s.act a = some r := by
  obtain ⟨-, _, hact⟩ := h
  exact hact

theorem exists_pMem {pMem : ℕ} (h : pMem ∈ s.live.map LiveBlock.pMem) :
    ∃ b ∈ s.live, b.pMem = pMem :=
  List.mem_map.mp h

theorem mem_pMem_of_free {pMem : ℕ} {r : Except MemFault MgrState}
    (h : s.act (.freeMem pMem) = some r) : pMem ∈ s.live.map LiveBlock.pMem := by
  by_contra hnot
  rw [act, if_neg hnot] at h
  cases h

theorem mem_pMem_of_addRef {pMem : ℕ} {r : Except MemFault MgrState}
    (h : s.act (.addRef pMem) = some r) : pMem ∈ s.live.map LiveBlock.pMem := by
  by_contra hnot
  rw [act, if_neg hnot] at h
  cases h

namespace Inv

variable (h : Inv blockNum s)
include h

/-- `allocMem`, where `malloc` keeps its promise. -/
theorem step_allocMem {nSize : ℕ} {sys : Mallocs} {r : Except MemFault MgrState}
    (hstep : (memoryMgr blockNum).step s (.allocMem nSize sys) r) :
    ∃ g m b, r = .ok ⟨g, m, s.live ++ [b]⟩ ∧ b.nSize = nSize ∧ Returned blockNum s g m b := by
  obtain ⟨hfits, hfresh⟩ := hstep.1
  have hact := act_of_step hstep
  rcases h.act_allocMem hfits sys with herror | ⟨g, m, b, hok, hb, hreturned⟩
  · rw [herror] at hfresh
    exact absurd hfresh nofun
  · exact ⟨g, m, b, Option.some.inj (hact.symm.trans hok), hb, hreturned⟩

/-- Every call keeps the invariant. -/
theorem step (hstep : (memoryMgr blockNum).step s a (.ok t)) : Inv blockNum t := by
  cases a with
  | allocMem nSize sys =>
    obtain ⟨g, m, b, ht, -, hreturned⟩ := h.step_allocMem hstep
    obtain rfl := Except.ok.inj ht
    exact hreturned.inv
  | freeMem pMem =>
    have hact := act_of_step hstep
    obtain ⟨b, hb, rfl⟩ := exists_pMem (mem_pMem_of_free hact)
    obtain ⟨block, hheader, -⟩ := h.header b hb
    rcases h.freeMem_cases hb hheader hact with hfreed | ⟨-, -, hcounted⟩
    · exact hfreed.inv
    · exact hcounted.inv
  | addRef pMem =>
    have hact := act_of_step hstep
    obtain ⟨b, hb, rfl⟩ := exists_pMem (mem_pMem_of_addRef hact)
    obtain ⟨block, hheader, -⟩ := h.header b hb
    obtain ⟨s', hs', hcounted⟩ := h.act_addRef hb hheader
    obtain rfl := Except.ok.inj (Option.some.inj (hs'.symm.trans hact))
    exact hcounted.inv

/-- Where all blocks are referenced once, no call but `addRef` is a fault, and they stay so. -/
theorem call (honce : s.Once) (ha : a.NoAddRef) {r : Except MemFault MgrState}
    (hstep : (memoryMgr blockNum).step s a r) : ∃ t, r = .ok t ∧ t.Once := by
  cases a with
  | allocMem nSize sys =>
    obtain ⟨g, m, b, rfl, -, hreturned⟩ := h.step_allocMem hstep
    refine ⟨_, rfl, fun c hc => ?_⟩
    rcases List.mem_append.mp hc with hc | hc
    · obtain ⟨block, hheader, hnRef⟩ := honce c hc
      exact ⟨block, (hreturned.other c hc).trans hheader, hnRef⟩
    · obtain rfl := List.mem_singleton.mp hc
      obtain ⟨block, hheader, -, hnRef⟩ := hreturned.once
      exact ⟨block, hheader, hnRef⟩
  | freeMem pMem =>
    have hact := act_of_step hstep
    obtain ⟨b, hb, rfl⟩ := exists_pMem (mem_pMem_of_free hact)
    obtain ⟨block, hheader, hnRef⟩ := honce b hb
    have hfreed : ∃ t, s.act (.freeMem b.pMem) = some (.ok t) ∧ Freed blockNum s b t := by
      cases hpool : b.pool with
      | some i => exact h.act_freeMem_pool hb hpool hheader hnRef
      | none =>
        obtain ⟨t, ht, hcases⟩ := h.act_freeMem_own hb hpool hheader
        rcases hcases with ⟨-, hfreed⟩ | ⟨hne, -⟩
        · exact ⟨t, ht, hfreed⟩
        · rw [hnRef] at hne
          exact absurd (by decide) hne
    obtain ⟨t, ht, hfreed⟩ := hfreed
    refine ⟨t, Option.some.inj (hact.symm.trans ht), fun c hc => ?_⟩
    rw [hfreed.live] at hc
    obtain ⟨hc, hne⟩ := mem_live_filter.mp hc
    obtain ⟨block', hheader', hnRef'⟩ := honce c hc
    exact ⟨block', (hfreed.other c hc hne).trans hheader', hnRef'⟩
  | addRef pMem => exact ha.elim

/-- The payload of a live block is behind the header. -/
theorem payload_of_live (hb : b ∈ s.live) :
    b.nSize ≤ b.payload.size ∧ ∃ r ∈ blocks blockNum s, r.base = b.pBlock ∧ b.payload.Within r := by
  have hwithin : (Region.mk b.pMem b.payload.size).Within
      ⟨b.pBlock, b.payload.size + sizeofMemoryBlock⟩ := by
    unfold Region.Within Region.fin LiveBlock.pMem
    dsimp only
    omega
  cases hpool : b.pool with
  | some i =>
    obtain ⟨hstart, hle⟩ := h.pooled b hb i hpool
    have hsize : b.payload.size = i.nSize := by rw [LiveBlock.payload, hpool]
    rw [hsize] at hwithin
    refine ⟨hsize ▸ hle, ⟨b.pBlock, i.realSize⟩, .inl ⟨i, _, hstart, rfl⟩, rfl, ?_⟩
    rw [LiveBlock.payload, hpool]
    exact hwithin
  | none =>
    have hsize : b.payload.size = b.nSize := by rw [LiveBlock.payload, hpool]
    rw [hsize] at hwithin
    refine ⟨hsize.ge, b.region, .inr ⟨b, hb, hpool, rfl⟩, rfl, ?_⟩
    rw [LiveBlock.payload, hpool]
    exact hwithin

/-- A state with all blocks referenced once. -/
theorem safe (honce : s.Once) : Safe blockNum s := by
  refine ⟨fun b hb => (h.payload_of_live hb).1, fun b hb => ?_, ?_, fun i => ?_,
    fun a ha e hstep => ?_⟩
  · obtain ⟨-, r, hr, -, hwithin⟩ := h.payload_of_live hb
    obtain ⟨t, ht, hrt⟩ := h.within hr
    exact ⟨t, ht, hwithin.trans hrt⟩
  · refine (List.pairwise_map.mp h.nodup).imp_of_mem fun {b c} hb hc hne => ?_
    obtain ⟨-, r, hr, hrb, hbr⟩ := h.payload_of_live hb
    obtain ⟨-, t, ht, htc, hct⟩ := h.payload_of_live hc
    have happ := (h.disjoint r hr t ht).resolve_left fun heq => hne (hrb ▸ htc ▸ heq ▸ rfl)
    exact ((happ.within hbr).symm.within hct).symm
  · obtain ⟨free, hlinked, hmem⟩ := h.free i
    refine ⟨free, hlinked, hlinked.nodup, hmem, fun x hx => ?_⟩
    obtain ⟨block, hheader, hidle⟩ := h.idle i x ((hmem x).mp hx).1 ((hmem x).mp hx).2
    exact ⟨block, hheader, hidle.nRef⟩
  · obtain ⟨t, ht, -⟩ := h.call honce ha hstep
    exact absurd ht nofun

end Inv

/-- The state of a run without `addRef`. -/
theorem inv_of_run (hfit : PoolsFit blockNum) {tr : List (MgrState × MgrAct)}
    (hrun : (memoryMgr blockNum).Run (.new blockNum) tr s) (htr : ∀ x ∈ tr, x.2.NoAddRef) :
    Inv blockNum s ∧ s.Once := by
  have hstep : ∀ (s : MgrState) a t, Inv blockNum s ∧ s.Once → a.NoAddRef →
      (memoryMgr blockNum).step s a (.ok t) → Inv blockNum t ∧ t.Once := by
    rintro s a t ⟨hs, honce⟩ ha hstep
    obtain ⟨t', ht, honce'⟩ := hs.call honce ha hstep
    obtain rfl := Except.ok.inj ht
    exact ⟨hs.step hstep, honce'⟩
  exact hrun.invariant_of_steps hstep htr ⟨.new hfit, fun _ hb => absurd hb List.not_mem_nil⟩

end MgrState

open MgrState in
/-- Safety of the memory pool. For pools of at least one block whose buffers have a size that is
a `size_t`, any sizes that leave room for a header and any addresses `malloc` returns, in every
state of a run of `allocMem` and `freeMem` : the payloads of the live blocks are apart and have
the size that was asked for, the free list of each pool visits no block twice and has the blocks
of the pool that are not live, each with the count 0, and no call is a fault. -/
theorem memory_pool_safe {blockNum : Pool → ℕ} (hfit : PoolsFit blockNum) {s₀ s : MgrState}
    {tr : List (MgrState × MgrAct)} (hinit : (memoryMgr blockNum).init s₀)
    (hrun : (memoryMgr blockNum).Run s₀ tr s) (htr : ∀ x ∈ tr, x.2.NoAddRef) :
    Safe blockNum s := by
  obtain rfl : s₀ = .new blockNum := hinit
  obtain ⟨hinv, honce⟩ := inv_of_run hfit hrun htr
  exact hinv.safe honce

open MgrState in
/-- Three calls : the second finds the pool without a free block. -/
theorem memory_pool_safe_three : ∃ tr s, (memoryMgr fun _ => 1).Run (.new fun _ => 1) tr s ∧
    s.live.length = 1 ∧ Safe (fun _ => 1) s := by
  let acts : List MgrAct := [.allocMem 10 ⟨1000, 1⟩, .allocMem 5 ⟨1, 2000⟩, .freeMem 1032]
  have heval : (acts.foldlM (Machine.next? Promise (fun _ => act) 0) (.new fun _ => 1)).map
      (fun s => s.live.length) = some 1 := by
    decide +kernel
  obtain ⟨tr, s, hrun, hacts, hlength⟩ :=
    Machine.Run.of_next?_map (· = MgrState.new fun _ => 1) heval
  have hno : ∀ x ∈ tr, x.2.NoAddRef := by
    intro x hx
    have hmem : x.2 ∈ acts := hacts ▸ List.mem_map_of_mem hx
    simp only [acts, List.mem_cons, List.not_mem_nil, or_false] at hmem
    rcases hmem with h | h | h <;> exact h ▸ trivial
  have hfit : PoolsFit fun _ => 1 := fun i => by cases i <;> decide
  exact ⟨tr, s, hrun, hlength, memory_pool_safe hfit rfl hrun hno⟩

open MgrState in
/-- With 2^63 blocks the size of the buffer is 0, and its first header is outside. -/
theorem not_memory_pool_safe : ¬∀ blockNum : Pool → ℕ,
    (∀ i, 1 ≤ blockNum i ∧ blockNum i < 18446744073709551616) → ∀ tr s,
      (memoryMgr blockNum).Run (.new blockNum) tr s → (∀ x ∈ tr, x.2.NoAddRef) →
        Safe blockNum s := by
  intro hall
  have hsafe := hall (fun _ => 9223372036854775808) (fun _ => by decide) [] _ (.nil _)
    fun _ hx => absurd hx List.not_mem_nil
  have heval : ((MgrState.new fun _ => 9223372036854775808).act (.allocMem 64 ⟨1000, 1⟩)).map
      (fun r => match r with
        | .error e => some e
        | .ok _ => none) = some (some .outOfBounds) := by
    decide +kernel
  obtain ⟨r, hr, herror⟩ := Option.map_eq_some_iff.mp heval
  cases r with
  | ok _ => exact absurd herror nofun
  | error e =>
    obtain rfl := Option.some.inj herror
    refine hsafe.calls (.allocMem 64 ⟨1000, 1⟩) trivial .outOfBounds ⟨⟨by decide, ?_⟩, 0, hr⟩
    rw [hr]
    rfl

end CellNet
