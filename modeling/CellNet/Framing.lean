import Mathlib.Data.List.Infix
import Mathlib.Data.List.TakeDrop
import Mathlib.Order.Basic

/-!
# Length-prefixed framing

A framing reads the length of the first frame off the beginning of a sequence, once
enough of it is there, and what it reads does not change when more arrives
(`Framing.stable`). A frame is complete when the sequence is at least that long.

`Splits xs fs t` : taking complete frames off the front of `xs` as long as there is one
gives `fs` and leaves `t`. It is deterministic (`Splits.unique`), and it can be done in
pieces as the sequence arrives (`Splits.append`), which is why the cuts of a stream do
not matter. `Takes xs fs ys` is as much of it as was done so far : it leaves no complete
frame exactly when it is all of it (`Takes.splits_iff`). `Boundary xs ys` : `ys` is what is
left of `xs` behind some number of complete frames. Splitting ends exactly when no
boundary announces a frame of length `0` (`splits_iff_pos`).
-/

namespace CellNet

/-- How long the first frame of a sequence is, once its header is there. -/
structure Framing (α : Type*) where
  /-- The length of the first frame, header included. -/
  frameLen : List α → Option ℕ
  /-- More input does not change a length that was read. -/
  stable : ∀ xs ys n, frameLen xs = some n → frameLen (xs ++ ys) = some n

namespace Framing

variable {α : Type*} (F : Framing α)

/-- `xs` begins with a complete frame. -/
def Complete (xs : List α) : Prop :=
  ∃ n, F.frameLen xs = some n ∧ n ≤ xs.length

/-- `f` is one frame. -/
def IsFrame (f : List α) : Prop :=
  F.frameLen f = some f.length

/-- Taking complete frames off `xs` gives `fs` and leaves `t`. -/
inductive Splits : List α → List (List α) → List α → Prop
  | done {xs : List α} : ¬F.Complete xs → Splits xs [] xs
  | frame {xs t : List α} {fs : List (List α)} {n : ℕ} : F.frameLen xs = some n →
    n ≤ xs.length → Splits (xs.drop n) fs t → Splits xs (xs.take n :: fs) t

/-- Taking some complete frames off `xs`, not necessarily all, gives `fs` and leaves `ys`. -/
inductive Takes (xs : List α) : List (List α) → List α → Prop
  | start : Takes xs [] xs
  | next {ys : List α} {fs : List (List α)} {n : ℕ} : Takes xs fs ys → F.frameLen ys = some n →
    n ≤ ys.length → Takes xs (fs ++ [ys.take n]) (ys.drop n)

/-- What is left of `xs` behind some number of complete frames. -/
inductive Boundary (xs : List α) : List α → Prop
  | start : Boundary xs xs
  | next {ys : List α} {n : ℕ} : Boundary xs ys → F.frameLen ys = some n →
    n ≤ ys.length → Boundary xs (ys.drop n)

variable {F}

/-! ## Splitting -/

/-- A proper prefix of a frame is not complete. -/
theorem IsFrame.not_complete_of_prefix {f t : List α} (h : F.IsFrame f) (ht : t <+: f)
    (hlt : t.length < f.length) : ¬F.Complete t := by
  rintro ⟨n, hn, hle⟩
  obtain ⟨u, rfl⟩ := ht
  have := F.stable t u n hn
  rw [h, Option.some.injEq] at this
  omega

namespace Splits

theorem not_complete {xs t : List α} {fs : List (List α)} (h : F.Splits xs fs t) :
    ¬F.Complete t := by
  induction h with
  | done h => exact h
  | frame _ _ _ ih => exact ih

theorem flatten {xs t : List α} {fs : List (List α)} (h : F.Splits xs fs t) :
    fs.flatten ++ t = xs := by
  induction h with
  | done => rfl
  | frame _ _ _ ih => rw [List.flatten_cons, List.append_assoc, ih, List.take_append_drop]

theorem length_le_of_mem {xs t f : List α} {fs : List (List α)} (h : F.Splits xs fs t)
    (hf : f ∈ fs) : f.length ≤ xs.length := by
  rw [← h.flatten, List.length_append]
  exact (List.sublist_flatten_of_mem hf).length_le.trans (Nat.le_add_right _ _)

theorem unique {xs t t' : List α} {fs fs' : List (List α)} (h : F.Splits xs fs t)
    (h' : F.Splits xs fs' t') : fs = fs' ∧ t = t' := by
  induction h generalizing fs' t' with
  | done hnc =>
    cases h' with
    | done => exact ⟨rfl, rfl⟩
    | frame hn hle => exact absurd ⟨_, hn, hle⟩ hnc
  | frame hn hle _ ih =>
    cases h' with
    | done hnc => exact absurd ⟨_, hn, hle⟩ hnc
    | frame hn' _ hrest =>
      rw [hn, Option.some.injEq] at hn'
      subst hn'
      obtain ⟨rfl, rfl⟩ := ih hrest
      exact ⟨rfl, rfl⟩

/-- Splitting what has arrived, then what is left with what arrives next, splits the
whole. -/
theorem append {xs ys t t' : List α} {fs fs' : List (List α)} (h : F.Splits xs fs t)
    (h' : F.Splits (t ++ ys) fs' t') : F.Splits (xs ++ ys) (fs ++ fs') t' := by
  induction h with
  | done => exact h'
  | @frame xs t fs n hn hle _ ih =>
    have h := ih h'
    rw [← List.drop_append_of_le_length hle] at h
    have htake : (xs ++ ys).take n = xs.take n := List.take_append_of_le_length hle
    rw [List.cons_append, ← htake]
    exact .frame (F.stable xs ys n hn) (by simp; omega) h

/-- A list of frames before an incomplete tail splits into just these. -/
theorem of_frames {t : List α} (ht : ¬F.Complete t) :
    ∀ {fs : List (List α)}, (∀ f ∈ fs, F.IsFrame f) → F.Splits (fs.flatten ++ t) fs t
  | [], _ => .done ht
  | f :: fs, h => by
    have hf : F.frameLen (f ++ (fs.flatten ++ t)) = some f.length :=
      F.stable _ _ _ (h f (by simp))
    have hrest : F.Splits (fs.flatten ++ t) fs t := of_frames ht fun g hg => h g (by simp [hg])
    rw [List.flatten_cons, List.append_assoc]
    have := Splits.frame hf (by simp) (by rwa [List.drop_left])
    rwa [List.take_left] at this

theorem boundary {xs t : List α} {fs : List (List α)} (h : F.Splits xs fs t) {zs : List α}
    (hz : F.Boundary zs xs) : F.Boundary zs t := by
  induction h with
  | done => exact hz
  | frame hn hle _ ih => exact ih (hz.next hn hle)

end Splits

/-! ## Taking some frames -/

namespace Takes

variable {xs ys zs t : List α} {fs fs' : List (List α)}

theorem trans (h : F.Takes xs fs ys) (h' : F.Takes ys fs' zs) : F.Takes xs (fs ++ fs') zs := by
  induction h' with
  | start => rwa [List.append_nil]
  | next _ hn hle ih =>
    rw [← List.append_assoc]
    exact ih.next hn hle

/-- Frames taken of what has arrived are frames of the whole. -/
theorem append (h : F.Takes xs fs ys) (zs : List α) : F.Takes (xs ++ zs) fs (ys ++ zs) := by
  induction h with
  | start => exact .start
  | @next ys fs n _ hn hle ih =>
    have hnext := ih.next (F.stable ys zs n hn) (by simp; omega)
    rwa [List.take_append_of_le_length hle, List.drop_append_of_le_length hle] at hnext

theorem flatten (h : F.Takes xs fs ys) : fs.flatten ++ ys = xs := by
  induction h with
  | start => rfl
  | next _ _ _ ih => rw [List.flatten_concat, List.append_assoc, List.take_append_drop, ih]

/-- Frames taken until none is complete are all of them. -/
theorem splits (h : F.Takes xs fs ys) (h' : F.Splits ys fs' t) : F.Splits xs (fs ++ fs') t := by
  induction h generalizing fs' with
  | start => exact h'
  | next _ hn hle ih =>
    rw [List.append_assoc]
    exact ih (.frame hn hle h')

theorem cons {n : ℕ} (hn : F.frameLen xs = some n) (hle : n ≤ xs.length)
    (h : F.Takes (xs.drop n) fs ys) : F.Takes xs (xs.take n :: fs) ys :=
  Takes.trans (.next .start hn hle) h

/-- The frames taken are all of them exactly when what is left begins with none. -/
theorem splits_iff (h : F.Takes xs fs ys) : (∃ t, F.Splits xs fs t) ↔ ¬F.Complete ys := by
  constructor
  · rintro ⟨t, ht⟩
    rw [List.append_cancel_left (h.flatten.trans ht.flatten.symm)]
    exact ht.not_complete
  · intro hnc
    have hs := h.splits (.done hnc)
    rw [List.append_nil] at hs
    exact ⟨ys, hs⟩

end Takes

/-- Splitting takes frames. -/
theorem Splits.takes {xs t : List α} {fs : List (List α)} (h : F.Splits xs fs t) :
    F.Takes xs fs t := by
  induction h with
  | done => exact .start
  | frame hn hle _ ih => exact .cons hn hle ih

/-! ## Boundaries -/

namespace Boundary

theorem trans {xs ys zs : List α} (h : F.Boundary xs ys) (h' : F.Boundary ys zs) :
    F.Boundary xs zs := by
  induction h' with
  | start => exact h
  | next _ hn hle ih => exact ih.next hn hle

/-- The boundaries of what has arrived are boundaries of the whole. -/
theorem append {xs ys : List α} (h : F.Boundary xs ys) (zs : List α) :
    F.Boundary (xs ++ zs) (ys ++ zs) := by
  induction h with
  | start => exact .start
  | @next ys n _ hn hle ih =>
    rw [← List.drop_append_of_le_length hle]
    exact ih.next (F.stable ys zs n hn) (by simp; omega)

/-- A boundary is the whole, or lies behind the first frame. -/
theorem cases_head {xs ys : List α} (h : F.Boundary xs ys) : ys = xs ∨
    ∃ n, F.frameLen xs = some n ∧ n ≤ xs.length ∧ F.Boundary (xs.drop n) ys := by
  induction h with
  | start => exact Or.inl rfl
  | next _ hn hle ih =>
    rcases ih with rfl | ⟨m, hm, hmle, hb⟩
    · exact Or.inr ⟨_, hn, hle, .start⟩
    · exact Or.inr ⟨m, hm, hmle, hb.next hn hle⟩

/-- From a boundary of `xs` that splitting passes, the rest of the splitting. -/
theorem splits {xs ys t : List α} {fs : List (List α)} (h : F.Boundary xs ys)
    (hs : F.Splits xs fs t) : ∃ fs', F.Splits ys fs' t := by
  induction h with
  | start => exact ⟨fs, hs⟩
  | next _ hn hle ih =>
    obtain ⟨fs', hs'⟩ := ih
    cases hs' with
    | done hnc => exact absurd ⟨_, hn, hle⟩ hnc
    | frame hn' _ hrest =>
      rw [hn, Option.some.injEq] at hn'
      subst hn'
      exact ⟨_, hrest⟩

end Boundary

/-- A boundary of what was split is the front of one of the frames, or the tail. -/
theorem Splits.boundary_cases {xs ys t : List α} {fs : List (List α)} (h : F.Splits xs fs t)
    (hb : F.Boundary xs ys) : ys = t ∨ ∃ f ∈ fs, F.frameLen ys = some f.length := by
  induction h with
  | done hnc =>
    rcases hb.cases_head with rfl | ⟨n, hn, hle, -⟩
    · exact Or.inl rfl
    · exact absurd ⟨n, hn, hle⟩ hnc
  | @frame xs _ fs n hn hle _ ih =>
    rcases hb.cases_head with rfl | ⟨m, hm, -, hb'⟩
    · refine Or.inr ⟨ys.take n, by simp, ?_⟩
      rw [hn, List.length_take, Nat.min_eq_left hle]
    · rw [hn, Option.some.injEq] at hm
      subst hm
      rcases ih hb' with rfl | ⟨f, hf, hlen⟩
      · exact Or.inl rfl
      · exact Or.inr ⟨f, by simp [hf], hlen⟩

/-- Splitting never passes a boundary that announces a frame of length `0`. -/
theorem Splits.frameLen_ne_zero {xs t : List α} {fs : List (List α)} (h : F.Splits xs fs t) :
    F.frameLen xs ≠ some 0 := by
  induction h with
  | done hnc => exact fun h0 => hnc ⟨0, h0, Nat.zero_le _⟩
  | @frame xs _ _ n hn _ _ ih =>
    intro h0
    obtain rfl : n = 0 := by simpa [hn] using h0
    exact ih (by simpa using h0)

/-- Splitting ends exactly when no boundary announces a frame of length `0`. -/
theorem splits_iff_pos {xs : List α} : (∃ fs t, F.Splits xs fs t) ↔
    ∀ ys, F.Boundary xs ys → F.frameLen ys ≠ some 0 := by
  constructor
  · rintro ⟨fs, t, h⟩ ys hb
    obtain ⟨fs', h'⟩ := hb.splits h
    exact h'.frameLen_ne_zero
  · intro h
    induction hlen : xs.length using Nat.strongRecOn generalizing xs with
    | _ k ih =>
      by_cases hc : F.Complete xs
      · obtain ⟨n, hn, hle⟩ := hc
        have hpos : n ≠ 0 := fun h0 => h xs .start (h0 ▸ hn)
        obtain ⟨fs, t, hs⟩ := ih (xs.drop n).length (by simp; omega)
          (fun ys hb => h ys ((Boundary.start.next hn hle).trans hb)) rfl
        exact ⟨_, _, .frame hn hle hs⟩
      · exact ⟨[], xs, .done hc⟩

/-- A prefix of a list of nonempty messages is some whole messages, in order, and a
proper prefix of the next one. -/
theorem prefix_flatten_cases : ∀ {ms : List (List α)} {xs : List α},
    (∀ m ∈ ms, m ≠ []) → xs <+: ms.flatten → ∃ fs rest t, ms = fs ++ rest ∧
      xs = fs.flatten ++ t ∧ (rest = [] → t = []) ∧
        ∀ m rest', rest = m :: rest' → t <+: m ∧ t.length < m.length
  | [], xs, _, h => ⟨[], [], [], rfl, by simpa using h, fun _ => rfl, by simp⟩
  | m :: ms, xs, hne, h => by
    rcases Nat.lt_or_ge xs.length m.length with hlt | hge
    · have hpre : xs <+: m :=
        List.prefix_of_prefix_length_le h (by simp) hlt.le
      refine ⟨[], m :: ms, xs, rfl, rfl, by simp, fun m' rest' heq => ?_⟩
      obtain ⟨rfl, -⟩ := List.cons.inj heq
      exact ⟨hpre, hlt⟩
    · obtain ⟨ys, rfl⟩ : m <+: xs :=
        List.prefix_of_prefix_length_le (by simp) h hge
      rw [List.flatten_cons, List.prefix_append_right_inj] at h
      obtain ⟨fs, rest, t, rfl, rfl, hnil, hcons⟩ :=
        prefix_flatten_cases (fun x hx => hne x (by simp [hx])) h
      exact ⟨m :: fs, rest, t, rfl, by simp, hnil, hcons⟩

end Framing

end CellNet
