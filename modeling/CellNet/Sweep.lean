import Mathlib.Data.List.Basic
import Mathlib.Data.List.Perm.Basic

/-!
# Sweeps

A table of objects by key, each with a history of its own. A sweep visits some of the
keys, one after the other : a visit may change or remove the object with that key, and
adds events to its history. What it may do is an `Effect`, and a key without an object is
passed over.

`Swept R ks t t'` : visiting each of the keys `ks` once leads from `t` to `t'`. It says
nothing about the order of the visits, since a visit touches the history of its key only.
So a sweep with `R` and then one with `S` are one sweep with `R.andThen S`
(`Swept.trans`), whatever the orders of the three, and a sweep whose effect is a function
has one outcome (`Swept.unique`). A log of events is determined by the histories up to its
order (`perm_of_history`).
-/

namespace CellNet

/-- For each key the object, if there is one, and the events so far. -/
abbrev Table (κ ν ε : Type*) :=
  κ → Option ν × List ε

/-- `R k v o es` : a visit of the object `v` with the key `k` may leave `o` and add the
events `es`. -/
abbrev Effect (κ ν ε : Type*) :=
  κ → ν → Option ν → List ε → Prop

variable {κ ν ε : Type*}

/-- A visit of the key `k`. -/
inductive Visit (R : Effect κ ν ε) (k : κ) : Option ν × List ε → Option ν × List ε → Prop
  | absent {es : List ε} : Visit R k (none, es) (none, es)
  | present {v : ν} {o : Option ν} {es es' : List ε} (h : R k v o es') :
    Visit R k (some v, es) (o, es ++ es')

/-- Visits of the keys `ks`, each once. -/
structure Swept (R : Effect κ ν ε) (ks : List κ) (t t' : Table κ ν ε) : Prop where
  visit : ∀ k ∈ ks, Visit R k (t k) (t' k)
  frame : ∀ k ∉ ks, t' k = t k

namespace Effect

/-- A visit with `R`, and then one with `S` if the object is still there. -/
def andThen (R S : Effect κ ν ε) : Effect κ ν ε := fun k v o es =>
  ∃ o' es', R k v o' es' ∧ Visit S k (o', es') (o, es)

/-- The effect has one outcome. -/
def Functional (R : Effect κ ν ε) : Prop :=
  ∀ k v o o' es es', R k v o es → R k v o' es' → o = o' ∧ es = es'

end Effect

variable {R S : Effect κ ν ε} {k : κ} {x y z : Option ν × List ε}

/-! ## One visit -/

namespace Visit

theorem trans (h : Visit R k x y) (h' : Visit S k y z) : Visit (R.andThen S) k x z := by
  cases h with
  | absent =>
    cases h'
    exact .absent
  | @present v o es es' hR =>
    cases o with
    | none =>
      cases h'
      exact .present ⟨none, es', hR, .absent⟩
    | some v' =>
      cases h' with
      | present hS =>
        rw [List.append_assoc]
        exact .present ⟨some v', es', hR, .present hS⟩

/-- A visit with `R.andThen S` is one with `R` and then one with `S`. -/
theorem of_andThen (h : Visit (R.andThen S) k x z) : ∃ y, Visit R k x y ∧ Visit S k y z := by
  cases h with
  | absent => exact ⟨_, .absent, .absent⟩
  | @present v o es es' hRS =>
    obtain ⟨o', es₁, hR, hS⟩ := hRS
    refine ⟨(o', es ++ es₁), .present hR, ?_⟩
    cases hS with
    | absent => exact .absent
    | present hS =>
      rw [← List.append_assoc]
      exact .present hS

/-- An object that is left was there. -/
theorem exists_of_some (h : Visit R k x y) {v' : ν} (hy : y.1 = some v') :
    ∃ v es, x.1 = some v ∧ R k v (some v') es := by
  cases h with
  | absent => simp at hy
  | @present v o es es' hR =>
    obtain rfl : o = some v' := hy
    exact ⟨v, es', rfl, hR⟩

theorem history_isPrefix (h : Visit R k x y) : x.2 <+: y.2 := by
  cases h with
  | absent => exact List.prefix_refl _
  | present => exact List.prefix_append _ _

theorem mono (h : Visit R k x y)
    (hRS : ∀ v o es, x.1 = some v → R k v o es → S k v o es) : Visit S k x y := by
  cases h with
  | absent => exact .absent
  | present hR => exact .present (hRS _ _ _ rfl hR)

theorem unique (hR : R.Functional) (h : Visit R k x y) (h' : Visit R k x z) : y = z := by
  cases h with
  | absent =>
    cases h'
    rfl
  | present hv =>
    cases h' with
    | present hv' =>
      obtain ⟨rfl, rfl⟩ := hR _ _ _ _ _ _ hv hv'
      rfl

end Visit

theorem Effect.Functional.andThen (hR : R.Functional) (hS : S.Functional) :
    (R.andThen S).Functional := by
  rintro k v o o' es es' ⟨o₁, es₁, h₁, hv⟩ ⟨o₂, es₂, h₂, hv'⟩
  obtain ⟨rfl, rfl⟩ := hR _ _ _ _ _ _ h₁ h₂
  exact Prod.mk.inj (hv.unique hS hv')

/-! ## Sweeps -/

namespace Swept

variable {ks ks' : List κ} {t t' t'' : Table κ ν ε}

theorem nil (R : Effect κ ν ε) (t : Table κ ν ε) : Swept R [] t t :=
  ⟨fun _ hk => absurd hk List.not_mem_nil, fun _ _ => rfl⟩

/-- A visit of a key, and then a sweep over others. -/
theorem cons (hk : k ∉ ks) (hv : Visit R k (t k) (t' k)) (hframe : ∀ q, q ≠ k → t' q = t q)
    (h : Swept R ks t' t'') : Swept R (k :: ks) t t'' := by
  refine ⟨fun q hq => ?_, fun q hq => ?_⟩
  · rcases List.mem_cons.mp hq with rfl | hq
    · rwa [h.frame q hk]
    · rw [← hframe q fun heq => hk (heq ▸ hq)]
      exact h.visit q hq
  · obtain ⟨hne, hq⟩ := not_or.mp (mt List.mem_cons.mpr hq)
    rw [h.frame q hq, hframe q hne]

/-- A sweep, and then a visit of another key. -/
theorem snoc (h : Swept R ks t t') (hk : k ∉ ks) (hv : Visit R k (t' k) (t'' k))
    (hframe : ∀ q, q ≠ k → t'' q = t' q) : Swept R (ks ++ [k]) t t'' := by
  refine ⟨fun q hq => ?_, fun q hq => ?_⟩
  · rcases List.mem_append.mp hq with hq | hq
    · rw [hframe q fun heq => hk (heq ▸ hq)]
      exact h.visit q hq
    · rw [List.mem_singleton.mp hq, ← h.frame k hk]
      exact hv
  · rw [List.mem_append, List.mem_singleton, not_or] at hq
    rw [hframe q hq.2, h.frame q hq.1]

/-- Only what the effect does to the objects of the table counts. -/
theorem mono (h : Swept R ks t t')
    (hRS : ∀ k ∈ ks, ∀ v o es, (t k).1 = some v → R k v o es → S k v o es) :
    Swept S ks t t' :=
  ⟨fun k hk => (h.visit k hk).mono (hRS k hk), h.frame⟩

/-- Two sweeps over the same keys are one. -/
theorem trans (h : Swept R ks t t') (h' : Swept S ks t' t'') :
    Swept (R.andThen S) ks t t'' :=
  ⟨fun k hk => (h.visit k hk).trans (h'.visit k hk),
    fun k hk => (h'.frame k hk).trans (h.frame k hk)⟩

/-- Keys may be added whose objects the effect leaves alone. -/
theorem widen (h : Swept R ks t t') (hsub : ∀ k ∈ ks, k ∈ ks')
    (hidle : ∀ k ∈ ks', k ∉ ks → ∀ v, (t k).1 = some v → R k v (some v) []) :
    Swept R ks' t t' := by
  refine ⟨fun k hk' => ?_, fun k hk' => h.frame k fun hk => hk' (hsub k hk)⟩
  by_cases hk : k ∈ ks
  · exact h.visit k hk
  · rw [h.frame k hk]
    have hid := hidle k hk' hk
    generalize t k = x at hid
    obtain ⟨o, es⟩ := x
    cases o with
    | none => exact .absent
    | some v =>
      have hvisit : Visit R k (some v, es) (some v, es ++ []) := .present (hid v rfl)
      rwa [List.append_nil] at hvisit

/-- A sweep only adds to the histories. -/
theorem history_isPrefix (h : Swept R ks t t') (k : κ) : (t k).2 <+: (t' k).2 := by
  by_cases hk : k ∈ ks
  · exact (h.visit k hk).history_isPrefix
  · have hsame := congrArg Prod.snd (h.frame k hk)
    exact hsame ▸ List.prefix_refl _

/-- A sweep whose effect is a function has one outcome. -/
theorem unique (hR : R.Functional) (h : Swept R ks t t') (h' : Swept R ks t t'') :
    t' = t'' := by
  funext k
  by_cases hk : k ∈ ks
  · exact (h.visit k hk).unique hR (h'.visit k hk)
  · rw [h.frame k hk, h'.frame k hk]

end Swept

/-! ## Histories -/

/-- Logs with the same history for each key have the same events. -/
theorem perm_of_history [DecidableEq κ] [DecidableEq ε] (key : ε → κ) {es es' : List ε}
    (h : ∀ k, es.filter (fun e => key e = k) = es'.filter fun e => key e = k) :
    es.Perm es' := by
  refine List.perm_iff_count.mpr fun e => ?_
  rw [← List.count_filter (p := fun e' => decide (key e' = key e)) (by simp), h (key e),
    List.count_filter (by simp)]

end CellNet
