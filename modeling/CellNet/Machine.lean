import Mathlib.Data.List.Basic
import Mathlib.Data.Nat.Init
import Mathlib.Logic.Relation
import Mathlib.Order.Basic

/-!
# Machines, runs and loops

A machine gives, for a state and an action, the possible outcomes : a next state, or a
fault. An action without an outcome cannot be taken, or never completes. A run lists
its steps with the state each was taken in, so a property of a run is a property of
the members of that list : `Run.invariant` is the induction over a run,
`Run.invariant_of_steps` the one where every step of the run is known to meet a
condition, and `Run.forall_iff` and `Run.forall_iff_of_steps` say when a condition on the
steps is exactly what a property of all the states needs, `Run.iff_forall` when it is what
one of the last state needs. `Along` is a condition on each step with the steps before it, with
the same two rules. `Run.response` bounds the steps until something happens, and `Run.refine`
takes a run to a machine above.
`Machine.ofStep` is the machine of a step function without faults.
`Machine.ofFn` is the machine of a function in an environment that keeps a promise, and
`Machine.next?` runs it.

`Loop` is one `while` loop : its body tests the condition and makes one pass.
`Loop.run` makes a bounded number of passes, `Loop.Ends` says how the loop ends.
`Loop.Ends.invariant` is the rule for an invariant of the passes, and
`Loop.not_ends_of_forever` the one for a loop that does not end.
-/

namespace CellNet

/-! ## Machines -/

/-- A machine with faults in `ε`. -/
structure Machine (σ α ε : Type*) where
  /-- The initial states. -/
  init : σ → Prop
  /-- The outcomes of an action. -/
  step : σ → α → Except ε σ → Prop

namespace Machine

variable {σ α ε : Type*} (M : Machine σ α ε)

/-- `M.Run s tr t` : the steps `tr`, each with the state it was taken in, lead from `s`
to `t`. -/
inductive Run : σ → List (σ × α) → σ → Prop
  | nil (s : σ) : Run s [] s
  | snoc {s t u : σ} {tr : List (σ × α)} {a : α} :
    Run s tr t → M.step t a (.ok u) → Run s (tr ++ [(t, a)]) u

/-- The states some run from an initial state ends in. -/
def Reachable (s : σ) : Prop :=
  ∃ s₀ tr, M.init s₀ ∧ M.Run s₀ tr s

variable {M}

theorem Run.append {s t u : σ} {tr tr' : List (σ × α)} (h : M.Run s tr t)
    (h' : M.Run t tr' u) : M.Run s (tr ++ tr') u := by
  induction h' with
  | nil => simpa using h
  | snoc _ hstep ih =>
    rw [← List.append_assoc]
    exact ih.snoc hstep

theorem Run.single {s t : σ} {a : α} (h : M.step s a (.ok t)) : M.Run s [(s, a)] t :=
  (Run.nil s).snoc h

theorem Run.cons {s t u : σ} {a : α} {tr : List (σ × α)} (h : M.step s a (.ok t))
    (h' : M.Run t tr u) : M.Run s ((s, a) :: tr) u :=
  (Run.single h).append h'

/-- Every step of a run was taken in a state that a first part of the run leads to. -/
theorem Run.of_mem {s u : σ} {tr : List (σ × α)} (h : M.Run s tr u) {x : σ × α}
    (hx : x ∈ tr) : ∃ pre post, M.Run s pre x.1 ∧ tr = pre ++ x :: post := by
  induction h with
  | nil => simp at hx
  | @snoc t _ tr a hrun _ ih =>
    rcases List.mem_append.mp hx with hx | hx
    · obtain ⟨pre, post, hpre, rfl⟩ := ih hx
      exact ⟨pre, post ++ [(t, a)], hpre, by simp⟩
    · rw [List.mem_singleton.mp hx]
      exact ⟨_, [], hrun, rfl⟩

/-- A run goes through each state that it took a step in. -/
theorem Run.split {s u : σ} {tr : List (σ × α)} (h : M.Run s tr u) {x : σ × α} (hx : x ∈ tr) :
    ∃ pre, M.Run s pre x.1 ∧ ∃ post, M.Run x.1 post u := by
  induction h with
  | nil => simp at hx
  | @snoc t _ tr a hrun hst ih =>
    rcases List.mem_append.mp hx with hx | hx
    · obtain ⟨pre, hpre, post, hpost⟩ := ih hx
      exact ⟨pre, hpre, _, hpost.snoc hst⟩
    · rw [List.mem_singleton.mp hx]
      exact ⟨tr, hrun, _, Run.single hst⟩

/-- What each step preserves, a run preserves. -/
theorem Run.invariant {I : σ → Prop} (hstep : ∀ s a t, I s → M.step s a (.ok t) → I t)
    {s t : σ} {tr : List (σ × α)} (h : M.Run s tr t) (hs : I s) : I t := by
  induction h with
  | nil => exact hs
  | snoc _ hst ih => exact hstep _ _ _ ih hst

/-- What each step that meets `P` preserves, a run whose steps all meet `P` preserves. -/
theorem Run.invariant_of_steps {I : σ → Prop} {P : σ → α → Prop}
    (hstep : ∀ s a t, I s → P s a → M.step s a (.ok t) → I t)
    {s t : σ} {tr : List (σ × α)} (h : M.Run s tr t) (hP : ∀ x ∈ tr, P x.1 x.2) (hs : I s) :
    I t := by
  induction h with
  | nil => exact hs
  | snoc _ hst ih =>
    exact hstep _ _ _ (ih fun x hx => hP x (by simp [hx])) (hP (_, _) (by simp)) hst

/-- Under an invariant `I` of the steps that meet `N`, let such a step from a state with
`Q` keep `Q` exactly when it meets `P`. Then in a run whose steps all meet `N`, all the
states have `Q` exactly when all the steps meet `P`. -/
theorem Run.forall_iff_of_steps {I Q : σ → Prop} {N P : σ → α → Prop}
    (hI : ∀ s a t, I s → N s a → M.step s a (.ok t) → I t)
    (hQ : ∀ s a t, I s → Q s → N s a → M.step s a (.ok t) → (Q t ↔ P s a))
    {s t : σ} {tr : List (σ × α)} (h : M.Run s tr t) (hN : ∀ x ∈ tr, N x.1 x.2) (hs : I s)
    (hq : Q s) : ((∀ x ∈ tr, Q x.1) ∧ Q t) ↔ ∀ x ∈ tr, P x.1 x.2 := by
  induction h with
  | nil => simpa using hq
  | snoc hrun hst ih =>
    simp only [List.mem_append, List.mem_singleton, or_imp, forall_and, forall_eq] at hN ⊢
    have hIt := hrun.invariant_of_steps hI hN.1 hs
    constructor
    · rintro ⟨⟨hall, ht⟩, hu⟩
      exact ⟨(ih hN.1).mp ⟨hall, ht⟩, (hQ _ _ _ hIt ht hN.2 hst).mp hu⟩
    · rintro ⟨hall, hp⟩
      obtain ⟨hall', ht⟩ := (ih hN.1).mpr hall
      exact ⟨⟨hall', ht⟩, (hQ _ _ _ hIt ht hN.2 hst).mpr hp⟩

/-- Under an invariant `I`, let a step from a state with `Q` keep `Q` exactly when it
meets `P`. Then all the states of a run have `Q` exactly when all its steps meet `P`. -/
theorem Run.forall_iff {I Q : σ → Prop} {P : σ → α → Prop}
    (hI : ∀ s a t, I s → M.step s a (.ok t) → I t)
    (hQ : ∀ s a t, I s → Q s → M.step s a (.ok t) → (Q t ↔ P s a))
    {s t : σ} {tr : List (σ × α)} (h : M.Run s tr t) (hs : I s) (hq : Q s) :
    ((∀ x ∈ tr, Q x.1) ∧ Q t) ↔ ∀ x ∈ tr, P x.1 x.2 :=
  h.forall_iff_of_steps (N := fun _ _ => True) (fun s a t hs _ => hI s a t hs)
    (fun s a t hs hq _ => hQ s a t hs hq) (fun _ _ => trivial) hs hq

/-- Under an invariant `I` of the steps that meet `P`, a step that meets `P` has `B`. Then
in a run whose steps all meet `P` every step has `B`. -/
theorem Run.forall_of_steps {I : σ → Prop} {P B : σ → α → Prop}
    (hstep : ∀ s a t, I s → P s a → M.step s a (.ok t) → I t)
    (hB : ∀ s a t, I s → P s a → M.step s a (.ok t) → B s a)
    {s t : σ} {tr : List (σ × α)} (h : M.Run s tr t) (hP : ∀ x ∈ tr, P x.1 x.2) (hs : I s) :
    ∀ x ∈ tr, B x.1 x.2 := by
  induction h with
  | nil => simp
  | @snoc t u tr a hrun hst ih =>
    have hPtr : ∀ x ∈ tr, P x.1 x.2 := fun x hx => hP x (by simp [hx])
    intro x hx
    rcases List.mem_append.mp hx with hx | hx
    · exact ih hPtr x hx
    · rw [List.mem_singleton.mp hx]
      exact hB t a u (hrun.invariant_of_steps hstep hPtr hs) (hP (t, a) (by simp)) hst

/-- Under an invariant `I`, let a step lead to `Q` exactly when it starts from `Q` and meets
`P`. Then a run that starts from `Q` ends with it exactly when all its steps meet `P`. -/
theorem Run.iff_forall {I Q : σ → Prop} {P : σ → α → Prop}
    (hI : ∀ s a t, I s → M.step s a (.ok t) → I t)
    (hQ : ∀ s a t, I s → M.step s a (.ok t) → (Q t ↔ Q s ∧ P s a))
    {s t : σ} {tr : List (σ × α)} (h : M.Run s tr t) (hs : I s) :
    Q t ↔ Q s ∧ ∀ x ∈ tr, P x.1 x.2 := by
  induction h with
  | nil => simp
  | snoc hrun hst ih =>
    rw [hQ _ _ _ (hrun.invariant hI hs) hst, ih]
    simp only [List.mem_append, List.mem_singleton, or_imp, forall_and, forall_eq, and_assoc]

/-- Each step of `tr` meets `P` with the steps before it. -/
def Along (P : List (σ × α) → σ → α → Prop) (tr : List (σ × α)) : Prop :=
  ∀ pre x post, tr = pre ++ x :: post → P pre x.1 x.2

theorem along_nil (P : List (σ × α) → σ → α → Prop) : Along P [] := by
  intro pre x post h
  simp at h

theorem along_snoc {P : List (σ × α) → σ → α → Prop} {tr : List (σ × α)} {x : σ × α} :
    Along P (tr ++ [x]) ↔ Along P tr ∧ P tr x.1 x.2 := by
  constructor
  · exact fun h => ⟨fun pre y post htr => h pre y (post ++ [x]) (by simp [htr]), h tr x [] rfl⟩
  · rintro ⟨h, hx⟩ pre y post htr
    rcases List.eq_nil_or_concat post with rfl | ⟨post', z, rfl⟩
    · obtain ⟨rfl, hxy⟩ := List.append_inj' htr rfl
      rwa [← List.singleton_inj.mp hxy]
    · have hsplit : tr ++ [x] = (pre ++ y :: post') ++ [z] := by simpa using htr
      exact h pre y post' (List.append_inj' hsplit rfl).1

/-- `Run.invariant_of_steps` and `Run.forall_of_steps` with the steps before. -/
theorem Run.forall_of_along {I : List (σ × α) → σ → Prop} {P : List (σ × α) → σ → α → Prop}
    {B : σ → α → Prop}
    (hstep : ∀ tr s a t, I tr s → P tr s a → M.step s a (.ok t) → I (tr ++ [(s, a)]) t)
    (hB : ∀ tr s a t, I tr s → P tr s a → M.step s a (.ok t) → B s a)
    {s t : σ} {tr : List (σ × α)} (h : M.Run s tr t) (hP : Along P tr) (hs : I [] s) :
    I tr t ∧ ∀ x ∈ tr, B x.1 x.2 := by
  induction h with
  | nil => exact ⟨hs, by simp⟩
  | @snoc t u tr a _ hst ih =>
    obtain ⟨hPtr, ha⟩ := along_snoc.mp hP
    obtain ⟨ht, hall⟩ := ih hPtr
    refine ⟨hstep tr t a u ht ha hst, fun x hx => ?_⟩
    rcases List.mem_append.mp hx with hx | hx
    · exact hall x hx
    · rw [List.mem_singleton.mp hx]
      exact hB tr t a u ht ha hst

/-- `Run.forall_iff` with the steps before. -/
theorem Run.forall_iff_along {I : List (σ × α) → σ → Prop} {Q : σ → Prop}
    {P : List (σ × α) → σ → α → Prop}
    (hI : ∀ tr s a t, I tr s → M.step s a (.ok t) → I (tr ++ [(s, a)]) t)
    (hQ : ∀ tr s a t, I tr s → Q s → M.step s a (.ok t) → (Q t ↔ P tr s a))
    {s t : σ} {tr : List (σ × α)} (h : M.Run s tr t) (hs : I [] s) (hq : Q s) :
    ((∀ x ∈ tr, Q x.1) ∧ Q t) ↔ Along P tr := by
  induction h with
  | nil => simpa [along_nil] using hq
  | @snoc t u tr a hrun hst ih =>
    have ht : I tr t := (hrun.forall_of_along (P := fun _ _ _ => True) (B := fun _ _ => True)
      (fun tr s a t hs _ => hI tr s a t hs) (fun _ _ _ _ _ _ _ => trivial)
      (fun _ _ _ _ => trivial) hs).1
    rw [along_snoc, ← ih]
    simp only [List.mem_append, List.mem_singleton, or_imp, forall_and, forall_eq]
    constructor
    · rintro ⟨⟨hall, hqt⟩, hu⟩
      exact ⟨⟨hall, hqt⟩, (hQ tr t a u ht hqt hst).mp hu⟩
    · rintro ⟨⟨hall, hqt⟩, hp⟩
      exact ⟨⟨hall, hqt⟩, (hQ tr t a u ht hqt hst).mpr hp⟩

/-- Bounded response. Let a state with `D` keep it, and let a step from a state with `W`
lead to `D`, or keep `W`, not raise the measure `m`, and lower it if `p` counts the step.
Then a run from a state with `W` has come to `D`, or `p` counts no more of its steps than
`m` allows. -/
theorem Run.response {W D : σ → Prop} {m : σ → ℕ} {p : σ × α → Bool}
    (hD : ∀ s a t, D s → M.step s a (.ok t) → D t)
    (hW : ∀ s a t, W s → M.step s a (.ok t) → D t ∨ W t ∧ m t + (p (s, a)).toNat ≤ m s)
    {s t : σ} {tr : List (σ × α)} (h : M.Run s tr t) (hs : W s) :
    D t ∨ W t ∧ m t + tr.countP p ≤ m s := by
  induction h with
  | nil => exact Or.inr ⟨hs, by simp⟩
  | @snoc t u tr a _ hst ih =>
    rcases ih with hd | ⟨hw, hle⟩
    · exact Or.inl (hD _ _ _ hd hst)
    · refine (hW _ _ _ hw hst).imp_right fun ⟨hw', hle'⟩ => ⟨hw', ?_⟩
      have hone : [(t, a)].countP p = (p (t, a)).toNat := by
        cases hp : p (t, a) <;> simp [hp]
      rw [List.countP_append, hone]
      omega

/-- A run of a machine below gives one of the machine above. Seen through `f`, let a step below
be the step `g` above, or change nothing where `g` gives none. -/
theorem Run.refine {σ' α' ε' : Type*} {N : Machine σ' α' ε'} {f : σ → σ'} {g : σ → α → Option α'}
    (hsome : ∀ s a t b, g s a = some b → M.step s a (.ok t) → N.step (f s) b (.ok (f t)))
    (hnone : ∀ s a t, g s a = none → M.step s a (.ok t) → f t = f s)
    {s t : σ} {tr : List (σ × α)} (h : M.Run s tr t) :
    N.Run (f s) (tr.filterMap fun x => (g x.1 x.2).map fun b => (f x.1, b)) (f t) := by
  induction h with
  | nil => exact .nil _
  | @snoc t u tr a _ hst ih =>
    rw [List.filterMap_append]
    cases hb : g t a with
    | none =>
      rw [hnone t a u hb hst]
      simpa [hb] using ih
    | some b => simpa [hb] using ih.snoc (hsome t a u b hb hst)

/-- Actions taken one after the other, where `f` gives an outcome of each. -/
theorem Run.of_foldlM {f : σ → α → Option σ} (hf : ∀ s a t, f s a = some t → M.step s a (.ok t)) :
    ∀ (as : List α) {s t : σ}, as.foldlM f s = some t →
      ∃ tr, M.Run s tr t ∧ tr.map Prod.snd = as
  | [], s, t, h => by
    obtain rfl : s = t := Option.some.inj h
    exact ⟨[], .nil s, rfl⟩
  | a :: as, s, t, h => by
    rw [List.foldlM_cons] at h
    obtain ⟨u, hu, h⟩ := Option.bind_eq_some_iff.mp h
    obtain ⟨tr, htr, hmap⟩ := Run.of_foldlM hf as h
    exact ⟨(s, a) :: tr, Run.cons (hf s a u hu) htr, by rw [List.map_cons, hmap]⟩

/-- `Run.of_foldlM`, where only a view `g` of the last state was evaluated. -/
theorem Run.of_foldlM_map {β : Type*} {f : σ → α → Option σ}
    (hf : ∀ s a t, f s a = some t → M.step s a (.ok t)) {as : List α} {s : σ} {g : σ → β} {b : β}
    (h : (as.foldlM f s).map g = some b) :
    ∃ tr t, M.Run s tr t ∧ tr.map Prod.snd = as ∧ g t = b := by
  obtain ⟨t, ht, hb⟩ := Option.map_eq_some_iff.mp h
  obtain ⟨tr, hrun, hacts⟩ := Run.of_foldlM hf as ht
  exact ⟨tr, t, hrun, hacts, hb⟩

/-- `Run.of_foldlM_map`, where `f` only takes steps that meet `P`. -/
theorem Run.of_foldlM_steps {β : Type*} {f : σ → α → Option σ} {P : σ → α → Prop}
    (hf : ∀ s a t, f s a = some t → M.step s a (.ok t) ∧ P s a) {g : σ → β} {b : β} :
    ∀ {as : List α} {s : σ}, (as.foldlM f s).map g = some b →
      ∃ tr t, M.Run s tr t ∧ tr.map Prod.snd = as ∧ (∀ x ∈ tr, P x.1 x.2) ∧ g t = b
  | [], s, h => ⟨[], s, .nil s, rfl, fun _ hx => absurd hx List.not_mem_nil, Option.some.inj h⟩
  | a :: as, s, h => by
    obtain ⟨v, hv, hb⟩ := Option.map_eq_some_iff.mp h
    rw [List.foldlM_cons] at hv
    obtain ⟨u, hu, hv⟩ := Option.bind_eq_some_iff.mp hv
    obtain ⟨hstep, hP⟩ := hf s a u hu
    obtain ⟨tr, t, htr, hmap, hall, hg⟩ :=
      Run.of_foldlM_steps hf (Option.map_eq_some_iff.mpr ⟨v, hv, hb⟩)
    exact ⟨(s, a) :: tr, t, Run.cons hstep htr, by rw [List.map_cons, hmap],
      List.forall_mem_cons.mpr ⟨hP, hall⟩, hg⟩

/-- An inductive invariant holds of every reachable state. -/
theorem Reachable.invariant {I : σ → Prop} (hinit : ∀ s, M.init s → I s)
    (hstep : ∀ s a t, I s → M.step s a (.ok t) → I t) {s : σ} (h : M.Reachable s) : I s := by
  obtain ⟨s₀, tr, h₀, hrun⟩ := h
  exact hrun.invariant hstep (hinit s₀ h₀)

/-! ## Machines of functions -/

section Step

variable (init : σ → Prop) (act : σ → α → Option σ)

/-- The machine that runs `act`, which gives `none` for an action that is blocked. -/
def ofStep : Machine σ α Empty where
  init := init
  step s a r := ∃ t, act s a = some t ∧ r = .ok t

variable {init act}

@[simp] theorem ofStep_step {s t : σ} {a : α} :
    (ofStep init act).step s a (.ok t) ↔ act s a = some t := by
  simp [ofStep]

theorem Run.of_act_map {β : Type*} {as : List α} {s : σ} {g : σ → β} {b : β}
    (h : (as.foldlM act s).map g = some b) :
    ∃ tr t, (ofStep init act).Run s tr t ∧ tr.map Prod.snd = as ∧ g t = b :=
  Run.of_foldlM_map (fun _ _ _ hact => ofStep_step.mpr hact) h

end Step

section Fn

variable (init : σ → Prop) (env : σ → α → Prop) (act : ℕ → σ → α → Option (Except ε σ))

/-- The machine that runs `act`, in which a loop ends after at most `n` tests, in an
environment that keeps the promise `env`. -/
def ofFn : Machine σ α ε where
  init := init
  step s a r := env s a ∧ ∃ n, act n s a = some r

variable [∀ s a, Decidable (env s a)]

/-- The state after an action, if the promise is kept and the action returns. -/
def next? (n : ℕ) (s : σ) (a : α) : Option σ :=
  if env s a then
    match act n s a with
    | some (.ok t) => some t
    | _ => none
  else none

variable {env act}

theorem step_of_next? {n : ℕ} {s t : σ} {a : α} (h : next? env act n s a = some t) :
    (ofFn init env act).step s a (.ok t) := by
  unfold next? at h
  split at h
  · rename_i henv
    split at h
    · rename_i u hact
      exact ⟨henv, n, Option.some.inj h ▸ hact⟩
    · simp at h
  · simp at h

theorem Run.of_next? {n : ℕ} {as : List α} {s t : σ}
    (h : as.foldlM (next? env act n) s = some t) :
    ∃ tr, (ofFn init env act).Run s tr t ∧ tr.map Prod.snd = as :=
  Run.of_foldlM (fun _ _ _ => step_of_next? init) as h

theorem Run.of_next?_map {β : Type*} {n : ℕ} {as : List α} {s : σ} {g : σ → β} {b : β}
    (h : (as.foldlM (next? env act n) s).map g = some b) :
    ∃ tr t, (ofFn init env act).Run s tr t ∧ tr.map Prod.snd = as ∧ g t = b :=
  Run.of_foldlM_map (fun _ _ _ => step_of_next? init) h

end Fn

end Machine

/-! ## Loops -/

/-- A `while` loop : the body tests the condition, and makes one pass if it holds. -/
structure Loop (σ ε : Type*) where
  /-- `none` when the condition is false, else the state after the pass. -/
  body : σ → Except ε (Option σ)

namespace Loop

variable {σ ε : Type*} (L : Loop σ ε)

/-- At most `n` tests of the condition. `none` when the loop has not ended by then. -/
def run : ℕ → σ → Option (Except ε σ)
  | 0, _ => none
  | n + 1, s =>
    match L.body s with
    | .error e => some (.error e)
    | .ok none => some (.ok s)
    | .ok (some s') => run n s'

/-- The loop from `s` ends, with the outcome `r`. -/
def Ends (s : σ) (r : Except ε σ) : Prop :=
  ∃ n, L.run n s = some r

/-- `t` is a state at the head of the loop, after some passes from `s`. -/
def Passes : σ → σ → Prop :=
  Relation.ReflTransGen fun s t => L.body s = .ok (some t)

variable {L}

theorem ends_of_exit {s : σ} (h : L.body s = .ok none) : L.Ends s (.ok s) :=
  ⟨1, by simp [run, h]⟩

theorem ends_of_pass {s s' : σ} {r : Except ε σ} (h : L.body s = .ok (some s'))
    (hr : L.Ends s' r) : L.Ends s r := by
  obtain ⟨n, hn⟩ := hr
  exact ⟨n + 1, by simpa [run, h] using hn⟩

/-- More tests do not change the outcome. -/
theorem run_add {n : ℕ} {s : σ} {r : Except ε σ} (h : L.run n s = some r) (m : ℕ) :
    L.run (n + m) s = some r := by
  induction n generalizing s with
  | zero => simp [run] at h
  | succ n ih =>
    rw [Nat.succ_add]
    cases hb : L.body s with
    | error e => simpa [run, hb] using h
    | ok o =>
      cases o with
      | none => simpa [run, hb] using h
      | some s' =>
        simp only [run, hb] at h ⊢
        exact ih h

/-- An invariant of the passes holds wherever the loop ends. -/
theorem Ends.invariant {I : σ → Prop} (hI : ∀ s t, I s → L.body s = .ok (some t) → I t)
    {s : σ} {r : Except ε σ} (h : L.Ends s r) (hs : I s) :
    (∀ t, r = .ok t → I t ∧ L.body t = .ok none) ∧
      ∀ e, r = .error e → ∃ t, I t ∧ L.body t = .error e := by
  obtain ⟨n, hn⟩ := h
  induction n generalizing s with
  | zero => simp [run] at hn
  | succ n ih =>
    cases hb : L.body s with
    | error e =>
      simp only [run, hb, Option.some.injEq] at hn
      subst hn
      simpa using ⟨s, hs, hb⟩
    | ok o =>
      cases o with
      | none =>
        simp only [run, hb, Option.some.injEq] at hn
        subst hn
        simpa using ⟨hs, hb⟩
      | some s' =>
        simp only [run, hb] at hn
        exact ih (hI s s' hs hb) hn

/-- A loop that ends normally has made passes to a state where its condition is false. -/
theorem Ends.passes {s t : σ} (h : L.Ends s (.ok t)) : L.Passes s t ∧ L.body t = .ok none :=
  (h.invariant (I := L.Passes s) (fun _ _ hp hb => hp.tail hb) .refl).1 t rfl

/-- A loop that makes a pass from every state with `I`, into a state with `I`, never
ends. -/
theorem not_ends_of_forever {I : σ → Prop}
    (hbody : ∀ s, I s → ∃ t, L.body s = .ok (some t) ∧ I t) {s : σ} (hs : I s)
    (r : Except ε σ) : ¬L.Ends s r := by
  rintro ⟨n, hn⟩
  induction n generalizing s with
  | zero => simp [run] at hn
  | succ n ih =>
    obtain ⟨t, hb, ht⟩ := hbody s hs
    exact ih ht (by simpa [run, hb] using hn)

/-- An invariant of the passes holds of every state they reach. -/
theorem Passes.invariant {I : σ → Prop} (hI : ∀ s t, I s → L.body s = .ok (some t) → I t)
    {s t : σ} (h : L.Passes s t) (hs : I s) : I t := by
  induction h with
  | refl => exact hs
  | tail _ hb ih => exact hI _ _ ih hb

end Loop

end CellNet
