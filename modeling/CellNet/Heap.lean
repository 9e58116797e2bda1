import CellNet.Cxx
import Mathlib.Data.List.Basic

/-!
# A heap of objects

The objects made with `new`, by the order of their creation. A pointer is the place of
its object; a deleted object leaves its place empty, so a pointer to it is never valid
again. `deref` and `delete` tell a use after deletion and a second deletion apart from
other misuse.

`get?` is the object a pointer is valid for, and every operation is described by what it
does to `get?`.
-/

namespace CellNet

/-- A pointer to a heap object. -/
abbrev Ptr :=
  ℕ

/-- The objects ever created, `none` once deleted. -/
structure Heap (α : Type) where
  cells : List (Option α)
  deriving DecidableEq, Repr

namespace Heap

variable {α β : Type} {h : Heap α} {p q : Ptr} {a b : α}

/-- No object was created yet. -/
def empty : Heap α :=
  ⟨[]⟩

/-- How many objects were created. -/
def size (h : Heap α) : ℕ :=
  h.cells.length

/-- The object at `p`, if `p` is valid. -/
def get? (h : Heap α) (p : Ptr) : Option α :=
  h.cells[p]?.join

/-- `new` : the pointer and the heap with the new object. -/
def new (h : Heap α) (a : α) : Ptr × Heap α :=
  (h.size, ⟨h.cells ++ [some a]⟩)

/-- `*p`. -/
def deref (h : Heap α) (p : Ptr) : Exec α :=
  match h.cells[p]? with
  | some (some a) => .ok a
  | some none => .error .useAfterFree
  | none => .error .outOfBounds

/-- The heap with the object at `p` in the state `a`. -/
def set (h : Heap α) (p : Ptr) (a : α) : Heap α :=
  ⟨h.cells.set p (some a)⟩

/-- `delete p`. -/
def delete (h : Heap α) (p : Ptr) : Exec (Heap α) :=
  match h.cells[p]? with
  | some (some _) => .ok ⟨h.cells.set p none⟩
  | some none => .error .doubleFree
  | none => .error .outOfBounds

/-- A call of the member function `f` on `*p`. -/
def call (h : Heap α) (p : Ptr) (f : α → Exec (β × α)) : Exec (β × Heap α) := do
  let a ← h.deref p
  let (b, a) ← f a
  return (b, h.set p a)

theorem get?_eq_some : h.get? p = some a ↔ h.cells[p]? = some (some a) := by
  rw [get?, Option.join_eq_some_iff]

theorem lt_size (hp : h.get? p = some a) : p < h.size := by
  rw [get?_eq_some] at hp
  exact (List.getElem?_eq_some_iff.mp hp).1

theorem get?_of_size_le (hp : h.size ≤ p) : h.get? p = none :=
  Option.eq_none_iff_forall_ne_some.mpr fun _ ha => Nat.not_lt.mpr hp (lt_size ha)

@[simp] theorem get?_empty : (empty : Heap α).get? p = none :=
  rfl

theorem get?_new : (h.new a).2.get? q = if q = h.size then some a else h.get? q := by
  obtain ⟨n, hn⟩ : ∃ n, h.size = n := ⟨_, rfl⟩
  have hlen : h.cells.length = n := hn
  rw [hn]
  rcases Nat.lt_trichotomy q n with hq | rfl | hq
  · rw [if_neg (Nat.ne_of_lt hq), get?, get?, new, List.getElem?_append_left (by omega)]
  · simp [get?, new, hlen]
  · rw [if_neg (Nat.ne_of_gt hq), get?, get?, new, List.getElem?_eq_none (by simp; omega),
      List.getElem?_eq_none (by omega)]

@[simp] theorem size_empty : (empty : Heap α).size = 0 :=
  rfl

theorem size_new : (h.new a).2.size = h.size + 1 := by
  simp [new, size]

@[simp] theorem size_set : (h.set p a).size = h.size := by
  simp [set, size]

theorem get?_set (hp : h.get? p = some a) :
    (h.set p b).get? q = if q = p then some b else h.get? q := by
  have hlt := lt_size hp
  simp only [get?, set, List.getElem?_set]
  by_cases hq : p = q
  · subst hq
    simp [show p < h.cells.length from hlt]
  · simp [hq, Ne.symm hq]

/-- What holds of all valid pointers can be decided cell by cell. -/
theorem forall_get? {P : α → Prop} :
    (∀ o ∈ h.cells, ∀ a ∈ o, P a) ↔ ∀ p a, h.get? p = some a → P a := by
  constructor
  · intro hP p a hp
    exact hP _ (List.mem_of_getElem? (get?_eq_some.mp hp)) a rfl
  · rintro hP _ ho a rfl
    obtain ⟨p, hp⟩ := List.mem_iff_getElem?.mp ho
    exact hP p a (get?_eq_some.mpr hp)

theorem deref_eq (hp : h.get? p = some a) : h.deref p = .ok a := by
  rw [deref, get?_eq_some.mp hp]

theorem delete_eq (hp : h.get? p = some a) : ∃ h', h.delete p = .ok h' ∧ h'.size = h.size ∧
    ∀ q, h'.get? q = if q = p then none else h.get? q := by
  have hlt := lt_size hp
  refine ⟨⟨h.cells.set p none⟩, by rw [delete, get?_eq_some.mp hp], by simp [size], fun q => ?_⟩
  simp only [get?, List.getElem?_set]
  by_cases hq : p = q
  · subst hq
    simp [show p < h.cells.length from hlt]
  · simp [hq, Ne.symm hq]

/-- A call on a valid pointer is the function on the object. -/
theorem call_sat {E : UB → Prop} (hp : h.get? p = some a) {f : α → Exec (β × α)}
    {Q : β × Heap α → Prop} (hf : Exec.Sat E (f a) fun r => Q (r.1, h.set p r.2)) :
    Exec.Sat E (h.call p f) Q := by
  rw [call, deref_eq hp, Fallible.ok_bind]
  exact hf.bind fun _ hr => hr

end Heap

end CellNet
