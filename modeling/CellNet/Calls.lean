import Mathlib.Order.Basic

/-!
# Sequences of calls

An object with the states `σ`, whose calls `α` return a reply and the next state, or are a
fault. `Calls.Safe` says that each call of a sequence returns, and as `G` says;
`Calls.Meets` that each call meets the condition `P` in the state it is made in.
`Calls.safe_iff_meets` : if that condition is the exact one for a call in a state with the
invariant `I`, and a call as `G` says keeps `I`, then it is the exact one for sequences.
`Calls.meets_iff_meets` is the same for two conditions.
-/

namespace CellNet

namespace Calls

variable {σ α β ε : Type*} (f : σ → α → Except ε (β × σ))

/-- Each call of the sequence returns, and `G` holds of its state, its reply and the state
behind it. -/
def Safe (G : σ → α → β → σ → Prop) : σ → List α → Prop
  | _, [] => True
  | s, a :: as => ∃ b t, f s a = .ok (b, t) ∧ G s a b t ∧ Safe G t as

/-- Each call of the sequence meets `P` where it is made. -/
def Meets (P : σ → α → Prop) : σ → List α → Prop
  | _, [] => True
  | s, a :: as => P s a ∧ ∀ b t, f s a = .ok (b, t) → Meets P t as

variable {f} {G : σ → α → β → σ → Prop} {P : σ → α → Prop} {I : σ → Prop}

theorem safe_iff_meets (hcall : ∀ s a, I s → ((∃ b t, f s a = .ok (b, t) ∧ G s a b t) ↔ P s a))
    (hkeep : ∀ s a b t, I s → G s a b t → I t) (as : List α) {s : σ} (hs : I s) :
    Safe f G s as ↔ Meets f P s as := by
  induction as generalizing s with
  | nil => exact Iff.rfl
  | cons a as ih =>
    constructor
    · rintro ⟨b, t, hf, hG, hsafe⟩
      refine ⟨(hcall s a hs).mp ⟨b, t, hf, hG⟩, fun b' t' hf' => ?_⟩
      obtain ⟨rfl, rfl⟩ := Prod.mk.inj (Except.ok.inj (hf.symm.trans hf'))
      exact (ih (hkeep s a b t hs hG)).mp hsafe
    · rintro ⟨hP, hmeets⟩
      obtain ⟨b, t, hf, hG⟩ := (hcall s a hs).mpr hP
      exact ⟨b, t, hf, hG, (ih (hkeep s a b t hs hG)).mpr (hmeets b t hf)⟩

/-- Two conditions that agree in the states with the invariant agree on sequences. -/
theorem meets_iff_meets {Q : σ → α → Prop} (hcall : ∀ s a, I s → (P s a ↔ Q s a))
    (hkeep : ∀ s a b t, I s → f s a = .ok (b, t) → I t) (as : List α) {s : σ} (hs : I s) :
    Meets f P s as ↔ Meets f Q s as := by
  induction as generalizing s with
  | nil => exact Iff.rfl
  | cons a as ih =>
    exact and_congr (hcall s a hs) (forall_congr' fun b => forall_congr' fun t =>
      forall_congr' fun hf => ih (hkeep s a b t hs hf))

end Calls

end CellNet
