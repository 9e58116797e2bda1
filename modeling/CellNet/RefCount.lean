import CellNet.MemorySafety
import Mathlib.Data.List.Induction

/-!
# Reference counts of the memory pool

A block that `allocMem` returned is referenced once. `CountingLaw` is what `addRef` and `freeMem`
should do with it : behind `k` calls of `addRef`, only the last of `k + 1` calls of `freeMem`
releases it, whatever calls are made of other blocks in between.

`Referenced` is what a call of the block has to know of it, and no call of another block changes
it (`Referenced.other`). `freeMem` of a block of a pool asserts that it is referenced once before
it counts down, so the law holds of it for `k = 0` only. It holds of a block of its own as long as
its count does not wrap around (`reference_counting_iff`).
-/

namespace CellNet

/-! ## The law -/

/-- The call is one of `freeMem` or `addRef` with the pointer `pMem`. -/
def MgrAct.Of (pMem : ℕ) : MgrAct → Prop
  | .allocMem .. => False
  | .freeMem p | .addRef p => p = pMem

instance (pMem : ℕ) : DecidablePred (MgrAct.Of pMem)
  | .allocMem .. => isFalse id
  | .freeMem _ | .addRef _ => inferInstanceAs (Decidable (_ = _))

/-- `k` calls of `addRef` and then `k + 1` of `freeMem`. -/
def countedCalls (pMem k : ℕ) : List MgrAct :=
  .replicate k (.addRef pMem) ++ .replicate (k + 1) (.freeMem pMem)

namespace MgrState

/-- The calls of a run with the pointer `pMem`. -/
def callsOf (pMem : ℕ) (tr : List (MgrState × MgrAct)) : List MgrAct :=
  (tr.map Prod.snd).filter (MgrAct.Of pMem)

/-- The block is live, and its memory cannot be returned again. -/
structure Kept (s : MgrState) (b : LiveBlock) : Prop where
  live : b ∈ s.live
  pooled : ∀ i, b.pool = some i → ∃ free, LinkedFrom (s.mem.view MemoryBlock.pNext)
    (s.mgr.get i).pHeader free ∧ b.pBlock ∉ free
  own : b.pool = none → b.region ∈ s.mem.regions

/-- The block is not live, and its memory can be returned again. -/
structure Reusable (s : MgrState) (b : LiveBlock) : Prop where
  live : b ∉ s.live
  pooled : ∀ i, b.pool = some i → ∃ free, LinkedFrom (s.mem.view MemoryBlock.pNext)
    (s.mgr.get i).pHeader free ∧ b.pBlock ∈ free
  own : b.pool = none → b.region ∉ s.mem.regions

/-- In every run from `s` that makes a part of the counted calls of the block, it is kept, the next
of them returns, and the last of them releases it. -/
def CountingLaw (blockNum : Pool → ℕ) (s : MgrState) (b : LiveBlock) (k : ℕ) : Prop :=
  ∀ tr t, (memoryMgr blockNum).Run s tr t → ∀ a rest,
    callsOf b.pMem tr ++ a :: rest = countedCalls b.pMem k →
      Kept t b ∧ ∃ u, (∀ r, (memoryMgr blockNum).step t a r ↔ r = .ok u) ∧
        (rest = [] → Reusable u b)

variable {blockNum : Pool → ℕ} {s t u : MgrState} {a : MgrAct} {b c : LiveBlock} {pMem k : ℕ}
  {n : ℤ} {tr : List (MgrState × MgrAct)} {l rest : List MgrAct}

@[simp] theorem callsOf_nil : callsOf pMem [] = [] :=
  rfl

theorem callsOf_snoc_of (ha : a.Of pMem) :
    callsOf pMem (tr ++ [(s, a)]) = callsOf pMem tr ++ [a] := by
  simp [callsOf, ha]

theorem callsOf_snoc_of_not (ha : ¬a.Of pMem) :
    callsOf pMem (tr ++ [(s, a)]) = callsOf pMem tr := by
  simp [callsOf, ha]

/-- The next of the counted calls is `addRef`, or all calls of `addRef` are made. -/
theorem of_countedCalls (h : l ++ a :: rest = countedCalls pMem k) :
    (a = .addRef pMem ∧ rest ≠ [] ∧ ∃ i < k, l = .replicate i (.addRef pMem)) ∨
    (a = .freeMem pMem ∧ ∃ j ≤ k, l = .replicate k (.addRef pMem) ++ .replicate j (.freeMem pMem) ∧
      rest = .replicate (k - j) (.freeMem pMem)) := by
  rcases List.append_eq_append_iff.mp h with ⟨l', haddRef, ha⟩ | ⟨l', hl, hfreeMem⟩
  · obtain ⟨hlen, hl, hl'⟩ := List.replicate_eq_append_iff.mp haddRef
    cases l' with
    | nil =>
      right
      obtain ⟨rfl, rfl⟩ := List.cons.inj ha
      exact ⟨rfl, 0, Nat.zero_le k, by rw [haddRef]; simp, rfl⟩
    | cons a' l' =>
      left
      obtain ⟨rfl, rfl⟩ := List.cons.inj ha
      refine ⟨List.eq_of_mem_replicate (hl' ▸ List.mem_cons_self), by simp, l.length, ?_, hl⟩
      rw [← hlen, List.length_cons]
      omega
  · right
    obtain ⟨hlen, hl', ha⟩ := List.replicate_eq_append_iff.mp hfreeMem
    rw [List.length_cons] at hlen
    rw [List.length_cons, List.replicate_succ] at ha
    obtain ⟨rfl, hrest⟩ := List.cons.inj ha
    refine ⟨rfl, l'.length, by omega, hl' ▸ hl, ?_⟩
    rw [show k - l'.length = rest.length by omega]
    exact hrest

/-! ## What a call of the block does -/

theorem outcome_unique {r r' : Except MemFault MgrState}
    (h : (memoryMgr blockNum).step s a r) (h' : (memoryMgr blockNum).step s a r') : r = r' :=
  Option.some.inj ((act_of_step h).symm.trans (act_of_step h'))

/-- A call with the pointer of a block that returns. -/
theorem step_iff_of_act (ha : a.Of pMem) (hact : s.act a = some (.ok u))
    (r : Except MemFault MgrState) : (memoryMgr blockNum).step s a r ↔ r = .ok u := by
  have hstep : (memoryMgr blockNum).step s a (.ok u) := by
    refine ⟨⟨?_, ?_⟩, 0, hact⟩
    · cases a with
      | allocMem => exact ha.elim
      | freeMem | addRef => trivial
    · rw [hact]
      rfl
  exact ⟨fun h => outcome_unique h hstep, fun h => h ▸ hstep⟩

/-- The block `b` is live and referenced `n` times. -/
structure Referenced (blockNum : Pool → ℕ) (s : MgrState) (b : LiveBlock) (n : ℤ) : Prop where
  inv : Inv blockNum s
  live : b ∈ s.live
  nRef : ∃ block, s.mem.headers b.pBlock = some block ∧ block.nRef = n

theorem Counted.referenced (h : Counted blockNum s b n t) (hb : b ∈ s.live) :
    Referenced blockNum t b n :=
  ⟨h.inv, h.live ▸ hb, h.nRef⟩

/-- A released block is not live, but in the free list or not allocated. -/
theorem Freed.reusable (h : Freed blockNum s b t) (hs : Inv blockNum s) (hb : b ∈ s.live) :
    Reusable t b := by
  have hlive : ∀ c ∈ t.live, c ∈ s.live ∧ c ≠ b := by
    rw [h.live]
    exact fun c hc => mem_live_filter.mp hc
  refine ⟨fun hmem => (hlive b hmem).2 rfl, fun i hpool => ?_, h.own⟩
  obtain ⟨free, hlinked, hmem⟩ := h.inv.free i
  refine ⟨free, hlinked, (hmem _).mpr ⟨h.pooled i hpool, ?_⟩⟩
  rintro ⟨c, hc, heq⟩
  exact (hlive c hc).2 (hs.eq_of_pBlock (hlive c hc).1 hb heq)

namespace Referenced

variable (h : Referenced blockNum s b n)
include h

theorem kept : Kept s b := by
  refine ⟨h.live, fun i hpool => ?_, fun hpool => (h.inv.own b h.live hpool).1⟩
  obtain ⟨free, hlinked, hmem⟩ := h.inv.free i
  exact ⟨free, hlinked, fun hfree => ((hmem _).mp hfree).2 (mem_liveSet h.live)⟩

theorem addRef : ∃ u, (∀ r, (memoryMgr blockNum).step s (.addRef b.pMem) r ↔ r = .ok u) ∧
    Referenced blockNum u b (int32 (n + 1)) := by
  obtain ⟨block, hheader, rfl⟩ := h.nRef
  obtain ⟨u, hact, hcounted⟩ := h.inv.act_addRef h.live hheader
  exact ⟨u, step_iff_of_act rfl hact, hcounted.referenced h.live⟩

/-- `freeMem` of a block that is referenced once. -/
theorem freeMem_last (hn : int32 (n - 1) = 0) (hpool : b.pool = none ∨ n = 1) :
    ∃ u, (∀ r, (memoryMgr blockNum).step s (.freeMem b.pMem) r ↔ r = .ok u) ∧ Reusable u b := by
  obtain ⟨block, hheader, rfl⟩ := h.nRef
  cases hfrom : b.pool with
  | some i =>
    have hone := hpool.resolve_left fun hnone => absurd (hfrom.symm.trans hnone) nofun
    obtain ⟨u, hact, hfreed⟩ := h.inv.act_freeMem_pool h.live hfrom hheader hone
    exact ⟨u, step_iff_of_act rfl hact, hfreed.reusable h.inv h.live⟩
  | none =>
    obtain ⟨u, hact, ⟨-, hfreed⟩ | ⟨hne, -⟩⟩ := h.inv.act_freeMem_own h.live hfrom hheader
    · exact ⟨u, step_iff_of_act rfl hact, hfreed.reusable h.inv h.live⟩
    · exact absurd hn hne

/-- `freeMem` of a block of its own that stays referenced. -/
theorem freeMem_own (hpool : b.pool = none) (hn : int32 (n - 1) ≠ 0) :
    ∃ u, (∀ r, (memoryMgr blockNum).step s (.freeMem b.pMem) r ↔ r = .ok u) ∧
      Referenced blockNum u b (int32 (n - 1)) := by
  obtain ⟨block, hheader, rfl⟩ := h.nRef
  obtain ⟨u, hact, ⟨hzero, -⟩ | ⟨-, hcounted⟩⟩ := h.inv.act_freeMem_own h.live hpool hheader
  · exact absurd hzero hn
  · exact ⟨u, step_iff_of_act rfl hact, hcounted.referenced h.live⟩

/-- `freeMem` of a block that is live behind it. -/
theorem of_freeMem (hstep : (memoryMgr blockNum).step s (.freeMem b.pMem) (.ok u))
    (hu : b ∈ u.live) :
    b.pool = none ∧ int32 (n - 1) ≠ 0 ∧ Referenced blockNum u b (int32 (n - 1)) := by
  obtain ⟨block, hheader, rfl⟩ := h.nRef
  rcases h.inv.freeMem_cases h.live hheader (act_of_step hstep) with hfreed | ⟨hpool, hne, hcounted⟩
  · exact absurd hu (hfreed.reusable h.inv h.live).live
  · exact ⟨hpool, hne, hcounted.referenced h.live⟩

/-- A call that is not one of the block leaves it as it is. -/
theorem other (ha : ¬a.Of b.pMem) (hstep : (memoryMgr blockNum).step s a (.ok u)) :
    Referenced blockNum u b n := by
  have hinv := h.inv.step hstep
  obtain ⟨block, hheader, hnRef⟩ := h.nRef
  cases a with
  | allocMem nSize sys =>
    obtain ⟨g, m, c, hu, -, hreturned⟩ := h.inv.step_allocMem hstep
    obtain rfl := Except.ok.inj hu
    refine ⟨hinv, List.mem_append_left _ h.live, block, ?_, hnRef⟩
    exact (hreturned.other b h.live).trans hheader
  | freeMem pMem =>
    have hact := act_of_step hstep
    obtain ⟨c, hc, rfl⟩ := exists_pMem (mem_pMem_of_free hact)
    have hne : b ≠ c := fun heq => ha (heq ▸ rfl)
    obtain ⟨blockC, hheaderC, -⟩ := h.inv.header c hc
    rcases h.inv.freeMem_cases hc hheaderC hact with hfreed | ⟨-, -, hcounted⟩
    · refine ⟨hinv, ?_, block, (hfreed.other b h.live hne).trans hheader, hnRef⟩
      rw [hfreed.live]
      exact mem_live_filter.mpr ⟨h.live, hne⟩
    · refine ⟨hinv, hcounted.live ▸ h.live, block, ?_, hnRef⟩
      exact (hcounted.other b h.live hne).trans hheader
  | addRef pMem =>
    have hact := act_of_step hstep
    obtain ⟨c, hc, rfl⟩ := exists_pMem (mem_pMem_of_addRef hact)
    have hne : b ≠ c := fun heq => ha (heq ▸ rfl)
    obtain ⟨blockC, hheaderC, -⟩ := h.inv.header c hc
    obtain ⟨u', hu', hcounted⟩ := h.inv.act_addRef hc hheaderC
    obtain rfl := Except.ok.inj (Option.some.inj (hu'.symm.trans hact))
    refine ⟨hinv, hcounted.live ▸ h.live, block, ?_, hnRef⟩
    exact (hcounted.other b h.live hne).trans hheader

end Referenced

/-! ## Runs -/

/-- How often a block is referenced behind these calls, if it was referenced once. -/
def balance (pMem : ℕ) (l : List MgrAct) : ℤ :=
  1 + l.count (.addRef pMem) - l.count (.freeMem pMem)

theorem int32_balance_nil : int32 (balance pMem []) = 1 := by
  have hone : balance pMem [] = 1 := by simp [balance]
  rw [hone]
  decide

theorem balance_counted (pMem i j : ℕ) :
    balance pMem (.replicate i (.addRef pMem) ++ .replicate j (.freeMem pMem)) = 1 + i - j := by
  simp [balance, List.count_append, List.count_replicate]

theorem balance_addRef : balance pMem (l ++ [.addRef pMem]) = balance pMem l + 1 := by
  simp [balance, List.count_append]
  omega

theorem balance_freeMem : balance pMem (l ++ [.freeMem pMem]) = balance pMem l - 1 := by
  simp [balance, List.count_append]
  omega

namespace Referenced

variable (h : Referenced blockNum s b 1)
include h

/-- In a run that makes a part of the counted calls, the header counts them. -/
theorem of_run (hk : k = 0 ∨ b.pool = none ∧ k < 4294967296)
    (hrun : (memoryMgr blockNum).Run s tr t) : ∀ rest ≠ [],
    callsOf b.pMem tr ++ rest = countedCalls b.pMem k →
      Referenced blockNum t b (int32 (balance b.pMem (callsOf b.pMem tr))) := by
  induction hrun with
  | nil =>
    intro _ _ _
    rw [callsOf_nil, int32_balance_nil]
    exact h
  | @snoc u t tr a hrun hstep ih =>
    intro rest hrest hcalls
    by_cases ha : a.Of b.pMem
    · rw [callsOf_snoc_of ha] at hcalls ⊢
      rw [List.append_assoc, List.singleton_append] at hcalls
      have hu := ih (a :: rest) (List.cons_ne_nil _ _) hcalls
      rcases of_countedCalls hcalls with ⟨rfl, -⟩ | ⟨rfl, j, hj, hl, rfl⟩
      · obtain ⟨u', hu', href⟩ := hu.addRef
        obtain rfl := Except.ok.inj ((hu' _).mp hstep)
        rw [balance_addRef, ← int32_add_int32]
        exact href
      · -- it is not the last call of `freeMem`
        have hjk : j < k := by
          by_contra hnot
          exact hrest (by rw [Nat.sub_eq_zero_of_le (not_lt.mp hnot), List.replicate_zero])
        obtain ⟨hpool, hk⟩ := hk.resolve_left (by omega)
        rw [balance_freeMem, sub_eq_add_neg, ← int32_add_int32, ← sub_eq_add_neg]
        have hne : int32 (int32 (balance b.pMem (callsOf b.pMem tr)) - 1) ≠ 0 := by
          rw [sub_eq_add_neg, int32_add_int32, Ne, int32_eq_zero_iff, hl, balance_counted]
          omega
        obtain ⟨u', hu', href⟩ := hu.freeMem_own hpool hne
        obtain rfl := Except.ok.inj ((hu' _).mp hstep)
        exact href
    · rw [callsOf_snoc_of_not ha] at hcalls ⊢
      exact (ih rest hrest hcalls).other ha hstep

/-- Under the law each part of the counted calls can be made, and the header counts them. -/
theorem of_law (hlaw : CountingLaw blockNum s b k) : ∀ rest ≠ [],
    l ++ rest = countedCalls b.pMem k →
      ∃ tr t, (memoryMgr blockNum).Run s tr t ∧ callsOf b.pMem tr = l ∧
        Referenced blockNum t b (int32 (balance b.pMem l)) := by
  induction l using List.reverseRecOn with
  | nil =>
    intro _ _ _
    rw [int32_balance_nil]
    exact ⟨[], s, .nil s, rfl, h⟩
  | append_singleton l a ih =>
    intro rest hrest hl
    rw [List.append_assoc, List.singleton_append] at hl
    obtain ⟨tr, t, hrun, hcalls, href⟩ := ih (a :: rest) (List.cons_ne_nil _ _) hl
    obtain ⟨-, u, hu, -⟩ := hlaw tr t hrun a rest (hcalls ▸ hl)
    have hstep := (hu _).mpr rfl
    have ha : a.Of b.pMem := by
      rcases of_countedCalls hl with ⟨rfl, -⟩ | ⟨rfl, -⟩ <;> rfl
    have hcalls' : callsOf b.pMem (tr ++ [(t, a)]) = l ++ [a] := by
      rw [callsOf_snoc_of ha, hcalls]
    obtain ⟨a', rest', rfl⟩ := List.exists_cons_of_ne_nil hrest
    obtain ⟨hkept, -⟩ := hlaw _ u (hrun.snoc hstep) a' rest' (by rw [hcalls']; simpa using hl)
    refine ⟨_, u, hrun.snoc hstep, hcalls', ?_⟩
    rcases of_countedCalls hl with ⟨rfl, -⟩ | ⟨rfl, -⟩
    · obtain ⟨u', hu', href'⟩ := href.addRef
      obtain rfl := Except.ok.inj ((hu' _).mp hstep)
      rw [balance_addRef, ← int32_add_int32]
      exact href'
    · rw [balance_freeMem, sub_eq_add_neg, ← int32_add_int32, ← sub_eq_add_neg]
      exact (href.of_freeMem hstep hkept.live).2.2

/-- Under the law the block stays referenced behind each of its first `k` calls of `freeMem`. -/
theorem own_of_law (hlaw : CountingLaw blockNum s b k) {j : ℕ} (hj : j < k) :
    b.pool = none ∧ int32 (k - j) ≠ 0 := by
  have hfree : List.replicate (k + 1 - j) (MgrAct.freeMem b.pMem) =
      .freeMem b.pMem :: .freeMem b.pMem :: .replicate (k - j - 1) (.freeMem b.pMem) := by
    rw [← List.replicate_succ, ← List.replicate_succ]
    congr 1
    omega
  have hcalls : List.replicate k (MgrAct.addRef b.pMem) ++ .replicate j (.freeMem b.pMem) ++
      .replicate (k + 1 - j) (.freeMem b.pMem) = countedCalls b.pMem k := by
    rw [List.append_assoc, List.replicate_append_replicate, Nat.add_sub_cancel' (by omega)]
    rfl
  rw [hfree] at hcalls
  obtain ⟨tr, t, hrun, htr, href⟩ := h.of_law hlaw _ (List.cons_ne_nil _ _) hcalls
  obtain ⟨-, u, hu, -⟩ := hlaw tr t hrun _ _ (htr ▸ hcalls)
  have hstep := (hu _).mpr rfl
  have htr' : callsOf b.pMem (tr ++ [(t, .freeMem b.pMem)]) = callsOf b.pMem tr ++ [_] :=
    callsOf_snoc_of rfl
  obtain ⟨hkept, -⟩ := hlaw _ u (hrun.snoc hstep) (.freeMem b.pMem) _ (by
    rw [htr', htr, List.append_assoc]
    exact hcalls)
  obtain ⟨hpool, hne, -⟩ := href.of_freeMem hstep hkept.live
  rw [balance_counted, sub_eq_add_neg, int32_add_int32] at hne
  refine ⟨hpool, ?_⟩
  rw [show (k : ℤ) - j = 1 + k - j + -1 by ring]
  exact hne

/-- The law holds of a block that is referenced once, if its count cannot wrap around and, of a
block of a pool, if it is not counted. -/
theorem law_iff : CountingLaw blockNum s b k ↔ k = 0 ∨ b.pool = none ∧ k < 4294967296 := by
  constructor
  · intro hlaw
    by_contra hnot
    obtain ⟨hk, hwrap⟩ := not_or.mp hnot
    have hpool := (h.own_of_law hlaw (Nat.pos_of_ne_zero hk)).1
    have hle : 4294967296 ≤ k := not_lt.mp fun hlt => hwrap ⟨hpool, hlt⟩
    -- the count is 0 when the low bits of `k` are counted down
    have hlt : k % 4294967296 < k := (Nat.mod_lt k (by decide)).trans_le hle
    refine (h.own_of_law hlaw hlt).2 (int32_eq_zero_iff.mpr ?_)
    omega
  · intro hk tr t hrun a rest hcalls
    have href := h.of_run hk hrun _ (List.cons_ne_nil a rest) hcalls
    refine ⟨href.kept, ?_⟩
    rcases of_countedCalls hcalls with ⟨rfl, hrest, -⟩ | ⟨rfl, j, hj, hl, rfl⟩
    · obtain ⟨u, hu, -⟩ := href.addRef
      exact ⟨u, hu, fun hnil => absurd hnil hrest⟩
    · rw [hl, balance_counted] at href
      by_cases hjk : j = k
      · subst hjk
        rw [add_sub_cancel_right] at href
        obtain ⟨u, hu, hreusable⟩ := href.freeMem_last (by decide) (.inr (by decide))
        exact ⟨u, hu, fun _ => hreusable⟩
      · obtain ⟨hpool, hlt⟩ := hk.resolve_left (by omega)
        have hne : int32 (int32 (1 + k - j) - 1) ≠ 0 := by
          rw [sub_eq_add_neg, int32_add_int32, Ne, int32_eq_zero_iff]
          omega
        obtain ⟨u, hu, -⟩ := href.freeMem_own hpool hne
        refine ⟨u, hu, fun hnil => absurd hnil ?_⟩
        rw [← Nat.sub_add_cancel (show 1 ≤ k - j by omega), List.replicate_succ]
        exact List.cons_ne_nil _ _

end Referenced

/-- A block that `allocMem` returned is referenced once. -/
theorem referenced_of_allocMem {nSize : ℕ} {sys : Mallocs} (h : Inv blockNum s)
    (hcall : (memoryMgr blockNum).step s (.allocMem nSize sys) (.ok t))
    (hb : t.live = s.live ++ [b]) : Referenced blockNum t b 1 := by
  obtain ⟨g, m, c, ht, -, hreturned⟩ := h.step_allocMem hcall
  obtain rfl := Except.ok.inj ht
  obtain rfl : c = b := List.singleton_inj.mp (List.append_cancel_left hb)
  obtain ⟨block, hheader, -, hnRef⟩ := hreturned.once
  exact ⟨hreturned.inv, List.mem_append_right _ (List.mem_singleton_self c), block, hheader, hnRef⟩

end MgrState

open MgrState in
/-- The reference counting law of the memory pool. For pools whose buffers have a size that is a
`size_t`, any calls before and any block that a call of `allocMem` returned : behind `k` calls of
`addRef` and with any calls of other blocks in between, the next `k` calls of `freeMem` return and
keep the block, and one more releases it, exactly if `k` is 0, or the block is not one of a pool and
its count does not wrap around. -/
theorem reference_counting_iff {blockNum : Pool → ℕ} (hfit : PoolsFit blockNum) {s₀ s : MgrState}
    {nSize : ℕ} {sys : Mallocs} {b : LiveBlock} (hs₀ : (memoryMgr blockNum).Reachable s₀)
    (hcall : (memoryMgr blockNum).step s₀ (.allocMem nSize sys) (.ok s))
    (hb : s.live = s₀.live ++ [b]) (k : ℕ) :
    CountingLaw blockNum s b k ↔ k = 0 ∨ b.pool = none ∧ k < 4294967296 := by
  have hinv : Inv blockNum s₀ := by
    refine hs₀.invariant ?_ fun s a t h hstep => h.step hstep
    rintro _ rfl
    exact .new hfit
  exact (referenced_of_allocMem hinv hcall hb).law_iff

open MgrState in
/-- A block of 200 bytes, which is more than a pool is for. -/
theorem reference_counting_iff_own : ∃ s b, (memoryMgr fun _ => 100000).Reachable s ∧
    s.live = [b] ∧ CountingLaw (fun _ => 100000) s b 3 := by
  have heval : (Machine.next? Promise (fun _ => act) 0 (.new fun _ => 100000)
      (.allocMem 200 ⟨1, 1000⟩)).map MgrState.live = some [⟨1000, 200, none⟩] := by
    decide +kernel
  obtain ⟨s, hs, hlive⟩ := Option.map_eq_some_iff.mp heval
  have hstep := Machine.step_of_next? (memoryMgr fun _ => 100000).init hs
  have hfit : PoolsFit fun _ => 100000 := fun i => by cases i <;> decide
  refine ⟨s, _, ⟨_, _, rfl, .single hstep⟩, hlive, ?_⟩
  exact (reference_counting_iff hfit ⟨_, [], rfl, .nil _⟩ hstep hlive 3).mpr (.inr ⟨rfl, by decide⟩)

namespace MgrState

/-- The first call returns the first block of the pool. -/
theorem step_first {blockNum : Pool → ℕ} (hfit : PoolsFit blockNum) {nSize : ℕ}
    (hle : nSize ≤ MAX_MEMORY_SZIE) (sys : Mallocs) (hbuf : 0 < sys.buf) :
    ∃ s, (memoryMgr blockNum).step (.new blockNum) (.allocMem nSize sys) (.ok s) ∧
      s.live = [⟨sys.buf, nSize, some (poolFor nSize)⟩] := by
  let i := poolFor nSize
  have hnew := Inv.new hfit
  have hnone : ((new blockNum).mgr.get i).pBuf = none := by cases i <;> rfl
  have hfresh : ∀ size, (new blockNum).mem.Fresh ⟨sys.buf, size⟩ := fun _ =>
    RawMemory.fresh_empty hbuf
  obtain ⟨m, hm, hinit⟩ := MemoryAlloc.initMemory_eq i hnone (hnew.fits i) (hfresh _)
  have hready := hnew.init hnone (hfresh _) hinit
  obtain ⟨a, m', htake, hreturned⟩ := hready.takeBlock_some (le_poolFor hle)
    (congrArg MemoryAlloc.pHeader get_made) sys.block
  rw [get_made] at htake
  dsimp only [made] at htake hreturned
  rw [MemoryMgr.set_set] at hreturned
  have hreturned' := hreturned.trans fun c hc => absurd hc List.not_mem_nil
  have hok : (new blockNum).mgr.allocMem (new blockNum).mem nSize sys =
      .ok ((new blockNum).mgr.set a i, m', sys.buf + sizeofMemoryBlock) := by
    rw [MemoryMgr.allocMem, if_pos hle, hnew.szAlloc, szAlloc_get hle]
    dsimp only
    rw [MemoryAlloc.allocMemory, MemoryAlloc.initIfNone, if_pos hnone, hm, Fallible.ok_bind]
    dsimp only
    rw [htake]
    rfl
  have hact := hreturned'.act_eq hok rfl
  refine ⟨_, ⟨⟨?_, ?_⟩, 0, hact⟩, rfl⟩
  · have hlt : nSize ≤ 128 := hle
    unfold MgrAct.Fits sizeofMemoryBlock
    dsimp only
    omega
  · rw [hact]
    rfl

end MgrState

open MgrState in
/-- A block of a pool that is referenced twice : the first call of `freeMem` fails its assertion. -/
theorem not_reference_counting : ¬∀ s₀ s nSize sys b k, (memoryMgr fun _ => 100000).Reachable s₀ →
    (memoryMgr fun _ => 100000).step s₀ (.allocMem nSize sys) (.ok s) → s.live = s₀.live ++ [b] →
      CountingLaw (fun _ => 100000) s b k := by
  intro hall
  have hfit : PoolsFit fun _ => 100000 := fun i => by cases i <;> decide
  have hle : 64 ≤ MAX_MEMORY_SZIE := by decide
  obtain ⟨s, hstep, hlive⟩ := step_first hfit hle ⟨1000, 1⟩ (by decide)
  have hlaw := hall _ s 64 ⟨1000, 1⟩ _ 1 ⟨_, [], rfl, .nil _⟩ hstep hlive
  have href := referenced_of_allocMem (.new hfit) hstep hlive
  exact absurd (href.own_of_law hlaw Nat.one_pos).1 nofun

end CellNet
