import CellNet.Framing

/-!
# Numbered messages in transit

A sender appends numbered frames to its queue, a wire carries the bytes, a receiver
takes complete frames off what has arrived. `Numbered` is a list of frames with
consecutive numbers, and `InTransit` says that the bytes arrived, on the wire and
queued, in this order, are such a list : from the number the receiver expects to the
number the sender gives next. Bytes may move along in any pieces (`InTransit.send`,
`InTransit.arrive`), a new frame takes the next number (`InTransit.enqueue`), and a
complete frame at the receiver has the number it expects (`InTransit.front`). Once all has
arrived there is a complete frame or nothing (`InTransit.arrived_cases`), and with nothing
in transit the two numbers are the same (`InTransit.number_eq`).
-/

namespace CellNet

variable {α ι : Type*}

/-- The frames have the numbers from `i` up to, not including, `j`. -/
inductive Numbered (P : ι → List α → Prop) (succ : ι → ι) : ι → List (List α) → ι → Prop
  | nil (i : ι) : Numbered P succ i [] i
  | cons {i j : ι} {f : List α} {fs : List (List α)} : P i f → Numbered P succ (succ i) fs j →
    Numbered P succ i (f :: fs) j

theorem Numbered.snoc {P : ι → List α → Prop} {succ : ι → ι} {i j : ι} {fs : List (List α)}
    {f : List α} (h : Numbered P succ i fs j) (hf : P j f) :
    Numbered P succ i (fs ++ [f]) (succ j) := by
  induction h with
  | nil i => exact .cons hf (.nil _)
  | cons hg _ ih => exact .cons hg (ih hf)

/-- The bytes arrived, on the wire and queued are frames numbered from `i` up to `j`. -/
def InTransit (P : ι → List α → Prop) (succ : ι → ι) (arrived wire queued : List α)
    (i j : ι) : Prop :=
  ∃ fs, Numbered P succ i fs j ∧ arrived ++ wire ++ queued = fs.flatten

namespace InTransit

variable {P : ι → List α → Prop} {succ : ι → ι} {arrived wire queued : List α} {i j : ι}

theorem empty (i : ι) : InTransit P succ [] [] [] i i :=
  ⟨[], .nil i, rfl⟩

/-- A frame with the next number is queued. -/
theorem enqueue (h : InTransit P succ arrived wire queued i j) {f : List α} (hf : P j f) :
    InTransit P succ arrived wire (queued ++ f) i (succ j) := by
  obtain ⟨fs, hnum, hflat⟩ := h
  refine ⟨fs ++ [f], hnum.snoc hf, ?_⟩
  rw [← List.append_assoc, hflat]
  simp

/-- The wire takes the first bytes of the queue. -/
theorem send (h : InTransit P succ arrived wire queued i j) (k : ℕ) :
    InTransit P succ arrived (wire ++ queued.take k) (queued.drop k) i j := by
  obtain ⟨fs, hnum, hflat⟩ := h
  refine ⟨fs, hnum, ?_⟩
  rw [← hflat]
  simp

/-- The first bytes of the wire arrive. -/
theorem arrive (h : InTransit P succ arrived wire queued i j) (k : ℕ) :
    InTransit P succ (arrived ++ wire.take k) (wire.drop k) queued i j := by
  obtain ⟨fs, hnum, hflat⟩ := h
  refine ⟨fs, hnum, ?_⟩
  rw [← hflat]
  simp

/-- A complete frame at the receiver has the number it expects. -/
theorem front (F : Framing α) (hframe : ∀ i f, P i f → F.IsFrame f)
    (h : InTransit P succ arrived wire queued i j) (hc : F.Complete arrived)
    (hne : arrived ≠ []) : ∃ f rest, arrived = f ++ rest ∧ P i f ∧
      F.frameLen arrived = some f.length ∧ InTransit P succ rest wire queued (succ i) j := by
  obtain ⟨fs, hnum, hflat⟩ := h
  obtain ⟨n, hn, hle⟩ := hc
  cases hnum with
  | nil => simp [hne] at hflat
  | @cons _ _ f fs hf hrest =>
    have hwhole : F.frameLen (arrived ++ (wire ++ queued)) = some n := F.stable _ _ _ hn
    rw [← List.append_assoc, hflat, List.flatten_cons, F.stable _ _ _ (hframe i f hf),
      Option.some.injEq] at hwhole
    subst hwhole
    have hpre : f <+: arrived := by
      refine List.prefix_of_prefix_length_le ?_ (List.prefix_append arrived (wire ++ queued)) hle
      rw [← List.append_assoc, hflat, List.flatten_cons]
      exact List.prefix_append _ _
    obtain ⟨rest, rfl⟩ := hpre
    refine ⟨f, rest, rfl, hf, hn, fs, hrest, ?_⟩
    simpa using hflat

/-- Where no frame is complete, less than a frame has arrived. -/
theorem length_lt (F : Framing α) (hframe : ∀ i f, P i f → F.IsFrame f) {n : ℕ} (hn : 0 < n)
    (hlen : ∀ i f, P i f → f.length = n) (h : InTransit P succ arrived wire queued i j)
    (hc : ¬F.Complete arrived) : arrived.length < n := by
  obtain ⟨fs, hnum, hflat⟩ := h
  cases hnum with
  | nil =>
    obtain ⟨rfl, -⟩ := List.append_eq_nil_iff.mp (List.append_eq_nil_iff.mp hflat).1
    exact hn
  | @cons _ _ f fs hf _ =>
    rw [← hlen i f hf]
    by_contra hle
    have hpre : f <+: arrived := by
      refine List.prefix_of_prefix_length_le ?_ (List.prefix_append arrived (wire ++ queued))
        (not_lt.mp hle)
      rw [← List.append_assoc, hflat, List.flatten_cons]
      exact List.prefix_append _ _
    obtain ⟨rest, rfl⟩ := hpre
    exact hc ⟨f.length, F.stable _ _ _ (hframe i f hf), by simp⟩

/-- Once all has arrived, a frame is complete or nothing is left. -/
theorem arrived_cases (F : Framing α) (hframe : ∀ i f, P i f → F.IsFrame f)
    (h : InTransit P succ arrived [] [] i j) : F.Complete arrived ∨ arrived = [] := by
  obtain ⟨fs, hnum, hflat⟩ := h
  rw [List.append_nil, List.append_nil] at hflat
  cases hnum with
  | nil => exact Or.inr hflat
  | @cons _ _ f fs hf _ =>
    rw [List.flatten_cons] at hflat
    refine Or.inl ⟨f.length, ?_, by simp [hflat]⟩
    rw [hflat]
    exact F.stable _ _ _ (hframe i f hf)

/-- With nothing in transit, the receiver expects the number the sender gives next. -/
theorem number_eq (hne : ∀ i f, P i f → f ≠ []) (h : InTransit P succ [] [] [] i j) : i = j := by
  obtain ⟨fs, hnum, hflat⟩ := h
  cases hnum with
  | nil => rfl
  | @cons _ _ f fs hf _ =>
    have hnil := List.flatten_eq_nil_iff.mp hflat.symm f List.mem_cons_self
    exact absurd hnil (hne i f hf)

end InTransit

end CellNet
