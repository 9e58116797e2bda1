import Mathlib.Data.List.Nodup
import Mathlib.Data.Set.Basic

/-!
# Linked lists in memory

A list that is kept in its own entries : `next x` is what the entry at `x` says comes behind it,
`none` standing for a null pointer, and `none` altogether where there is no entry.

`Segment next p xs q` : from the pointer `p` the entries `xs` are linked up to the pointer `q`.
`LinkedFrom` is a segment that ends at a null pointer. Such a list visits no entry twice
(`LinkedFrom.nodup`), and it depends on the entries it visits only (`Segment.congr`).

`FreeListed` says that the entries of a linked list are the blocks of a set that are not live. It
is kept when the first entry is taken out (`FreeListed.pop`) and when a live block is put in front
(`FreeListed.push`).
-/

namespace CellNet

variable {α : Type*} {next next' : α → Option (Option α)} {p q r : Option α} {x y : α}
  {xs ys : List α}

/-- The entries `xs` are linked from `p` to `q`. -/
def Segment (next : α → Option (Option α)) : Option α → List α → Option α → Prop
  | p, [], q => p = q
  | p, x :: xs, q => p = some x ∧ ∃ r, next x = some r ∧ Segment next r xs q

/-- The entries `xs` are linked from `p` to the end. -/
def LinkedFrom (next : α → Option (Option α)) (p : Option α) (xs : List α) : Prop :=
  Segment next p xs none

namespace Segment

/-- Entries that are not visited do not matter. -/
theorem congr (h : Segment next p xs q) (heq : ∀ x ∈ xs, next' x = next x) :
    Segment next' p xs q := by
  induction xs generalizing p with
  | nil => exact h
  | cons x xs ih =>
    obtain ⟨rfl, r, hr, hxs⟩ := h
    exact ⟨rfl, r, (heq x List.mem_cons_self).trans hr,
      ih hxs fun y hy => heq y (List.mem_cons_of_mem x hy)⟩

theorem append (h : Segment next p xs q) (h' : Segment next q ys r) :
    Segment next p (xs ++ ys) r := by
  induction xs generalizing p with
  | nil =>
    obtain rfl : p = q := h
    exact h'
  | cons x xs ih =>
    obtain ⟨rfl, s, hs, hxs⟩ := h
    exact ⟨rfl, s, hs, ih hxs⟩

theorem of_append (h : Segment next p (xs ++ ys) r) :
    ∃ q, Segment next p xs q ∧ Segment next q ys r := by
  induction xs generalizing p with
  | nil => exact ⟨p, rfl, h⟩
  | cons x xs ih =>
    obtain ⟨rfl, s, hs, hxs⟩ := h
    obtain ⟨q, hq, hys⟩ := ih hxs
    exact ⟨q, ⟨rfl, s, hs, hq⟩, hys⟩

/-- One entry more at the end. -/
theorem snoc (h : Segment next p xs (some x)) (hx : next x = some q) :
    Segment next p (xs ++ [x]) q :=
  h.append ⟨rfl, q, hx, rfl⟩

end Segment

namespace LinkedFrom

theorem cons (h : LinkedFrom next p xs) (hx : next x = some p) :
    LinkedFrom next (some x) (x :: xs) :=
  ⟨rfl, p, hx, h⟩

theorem nil_of_none (h : LinkedFrom next none xs) : xs = [] := by
  cases xs with
  | nil => rfl
  | cons x xs => exact absurd h.1 nofun

/-- The first entry, and the rest behind it. -/
theorem of_some (h : LinkedFrom next (some x) xs) :
    ∃ r ys, xs = x :: ys ∧ next x = some r ∧ LinkedFrom next r ys := by
  cases xs with
  | nil => exact absurd h nofun
  | cons y ys =>
    obtain ⟨hx, r, hr, hys⟩ := h
    obtain rfl := Option.some.inj hx
    exact ⟨r, ys, rfl, hr, hys⟩

/-- The pointer says which entries are linked. -/
theorem unique (h : LinkedFrom next p xs) (h' : LinkedFrom next p ys) : xs = ys := by
  induction xs generalizing p ys with
  | nil =>
    obtain rfl : p = none := h
    exact h'.nil_of_none.symm
  | cons x xs ih =>
    obtain ⟨rfl, r, hr, hxs⟩ := h
    obtain ⟨r', zs, rfl, hr', hzs⟩ := h'.of_some
    obtain rfl := Option.some.inj (hr.symm.trans hr')
    rw [ih hxs hzs]

/-- No entry is visited twice. -/
theorem nodup (h : LinkedFrom next p xs) : xs.Nodup := by
  induction xs generalizing p with
  | nil => exact List.nodup_nil
  | cons x xs ih =>
    have hcons : LinkedFrom next (some x) (x :: xs) := h.1 ▸ h
    obtain ⟨r, -, hxs⟩ := h.2
    refine List.nodup_cons.mpr ⟨fun hmem => ?_, ih hxs⟩
    -- the list from `x` would be linked from its second visit of `x` too
    obtain ⟨ys, zs, rfl⟩ := List.append_of_mem hmem
    obtain ⟨q, -, hq⟩ := Segment.of_append hxs
    have hzs : LinkedFrom next (some x) (x :: zs) := hq.1 ▸ hq
    have hlen := congrArg List.length (hcons.unique hzs)
    simp only [List.length_cons, List.length_append] at hlen
    omega

/-- Entries in a row, each linked to the one behind it. -/
theorem range {f : ℕ → α} {n : ℕ} (h : ∀ k < n, next (f k) = some (some (f (k + 1))))
    (hn : next (f n) = some none) : LinkedFrom next (some (f 0)) ((List.range (n + 1)).map f) := by
  have hseg : ∀ k ≤ n, Segment next (some (f 0)) ((List.range k).map f) (some (f k)) := by
    intro k
    induction k with
    | zero => exact fun _ => rfl
    | succ k ih =>
      intro hk
      rw [List.range_succ, List.map_append]
      exact (ih (by omega)).snoc (h k hk)
  rw [List.range_succ, List.map_append]
  exact (hseg n (le_refl n)).snoc hn

end LinkedFrom

/-! ## Free lists -/

theorem mem_filter_ne [DecidableEq α] : y ∈ xs.filter (· ≠ x) ↔ y ∈ xs ∧ y ≠ x := by
  rw [List.mem_filter, decide_eq_true_eq]

theorem mem_snoc : y ∈ xs ++ [x] ↔ y ∈ xs ∨ y = x := by
  rw [List.mem_append, List.mem_singleton]

/-- The blocks that are not live are linked from `p` to the end. -/
def FreeListed (next : α → Option (Option α)) (p : Option α) (blocks live : Set α) : Prop :=
  ∃ free, LinkedFrom next p free ∧ ∀ x, x ∈ free ↔ x ∈ blocks ∧ x ∉ live

namespace FreeListed

variable {blocks live live' : Set α}

/-- Neither live blocks nor others matter. -/
theorem congr (h : FreeListed next p blocks live)
    (hnext : ∀ x ∈ blocks, x ∉ live → next' x = next x)
    (hlive : ∀ x ∈ blocks, x ∈ live' ↔ x ∈ live) : FreeListed next' p blocks live' := by
  obtain ⟨free, hlinked, hmem⟩ := h
  refine ⟨free, hlinked.congr fun x hx => ?_,
    fun x => (hmem x).trans (and_congr_right fun hx => ?_)⟩
  · obtain ⟨hblock, hfree⟩ := (hmem x).mp hx
    exact hnext x hblock hfree
  · exact not_congr (hlive x hx).symm

/-- A list without an entry : all blocks are live. -/
theorem mem_live_of_none (h : FreeListed next none blocks live) (hx : x ∈ blocks) : x ∈ live := by
  obtain ⟨free, hlinked, hmem⟩ := h
  obtain rfl := hlinked.nil_of_none
  by_contra hlive
  exact absurd ((hmem x).mpr ⟨hx, hlive⟩) List.not_mem_nil

/-- The first entry is taken out. -/
theorem pop (h : FreeListed next (some x) blocks live)
    (hlive : ∀ y ∈ blocks, y ∈ live' ↔ y ∈ live ∨ y = x) :
    x ∈ blocks ∧ x ∉ live ∧ ∃ r, next x = some r ∧ FreeListed next r blocks live' := by
  obtain ⟨free, hlinked, hmem⟩ := h
  have hnodup := hlinked.nodup
  obtain ⟨r, ys, rfl, hr, hys⟩ := hlinked.of_some
  obtain ⟨hx, hxlive⟩ := (hmem x).mp List.mem_cons_self
  refine ⟨hx, hxlive, r, hr, ys, hys, fun y => ⟨fun hy => ?_, fun ⟨hy, hylive⟩ => ?_⟩⟩
  · obtain ⟨hblock, hfree⟩ := (hmem y).mp (List.mem_cons_of_mem x hy)
    refine ⟨hblock, fun hy' => ((hlive y hblock).mp hy').elim hfree ?_⟩
    rintro rfl
    exact (List.nodup_cons.mp hnodup).1 hy
  · have hnot := not_or.mp ((hlive y hy).not.mp hylive)
    exact (List.mem_cons.mp ((hmem y).mpr ⟨hy, hnot.1⟩)).resolve_left hnot.2

/-- A live block is put in front. -/
theorem push (h : FreeListed next p blocks live) (hx : x ∈ blocks) (hxlive : x ∈ live)
    (hxnext : next' x = some p) (hnext : ∀ y ∈ blocks, y ∉ live → next' y = next y)
    (hlive : ∀ y ∈ blocks, y ∈ live' ↔ y ∈ live ∧ y ≠ x) :
    FreeListed next' (some x) blocks live' := by
  obtain ⟨free, hlinked, hmem⟩ := h
  have hlinked' : LinkedFrom next' p free := hlinked.congr fun y hy =>
    hnext y ((hmem y).mp hy).1 ((hmem y).mp hy).2
  refine ⟨x :: free, hlinked'.cons hxnext, fun y => ?_⟩
  rw [List.mem_cons, hmem]
  constructor
  · rintro (rfl | ⟨hy, hylive⟩)
    · exact ⟨hx, fun hlive' => ((hlive y hx).mp hlive').2 rfl⟩
    · exact ⟨hy, fun hlive' => hylive ((hlive y hy).mp hlive').1⟩
  · rintro ⟨hy, hylive⟩
    by_cases hxy : y = x
    · exact .inl hxy
    · exact .inr ⟨hy, fun hlive' => hylive ((hlive y hy).mpr ⟨hlive', hxy⟩)⟩

end FreeListed

end CellNet
