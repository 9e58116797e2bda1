import CellNet.Fallible
import Mathlib.Data.List.Nodup
import Mathlib.Data.Set.Basic
import Mathlib.Logic.Function.Basic

/-!
# Raw memory with headers

Memory that is handed out by `malloc` in regions of addresses, and in which a program keeps
headers of `hs` bytes : values of a type `H`, each at an address. A header can be written inside
a region only, a write destroys the headers it overlaps, and what was never written cannot be
read.

Where `malloc` puts a region is up to its caller, who says the address. A region that is not
apart from all others is refused with `notFresh`, so a promise that `malloc` returns fresh memory
is one that this fault does not occur.

`Disjoint` says that the blocks of a set are apart. Behind a write the headers of the other
blocks are what they were (`headers_put_of_apart`), and so they are behind `malloc` and `free`.
-/

namespace CellNet

/-- What can go wrong. -/
inductive MemFault
  /-- The address of a new region is not fresh. -/
  | notFresh
  /-- A header is written outside the regions. -/
  | outOfBounds
  /-- A header is read where none is. -/
  | uninitialised
  /-- A null pointer is used. -/
  | nullDeref
  /-- A region is freed that is none. -/
  | badFree
  /-- An assertion fails. -/
  | assertion
  deriving DecidableEq, Repr

/-- `assert`. -/
def assert (p : Prop) [Decidable p] : Except MemFault Unit :=
  if p then .ok () else .error .assertion

theorem assert_of {p : Prop} [Decidable p] (h : p) : assert p = .ok () :=
  if_pos h

theorem assert_of_not {p : Prop} [Decidable p] (h : ¬p) : assert p = .error .assertion :=
  if_neg h

/-- `malloc` was said to return what is not fresh. -/
def notFresh {α : Type*} : Option (Except MemFault α) → Bool
  | some (.error .notFresh) => true
  | _ => false

/-! ## Regions -/

/-- The addresses from `base` on, `size` of them. -/
structure Region where
  base : ℕ
  size : ℕ
  deriving DecidableEq, Repr

namespace Region

variable {r s t : Region}

/-- The address behind the region. -/
def fin (r : Region) : ℕ :=
  r.base + r.size

/-- One region ends before the other begins. -/
def Apart (r s : Region) : Prop :=
  r.fin ≤ s.base ∨ s.fin ≤ r.base

/-- A region inside another. -/
def Within (r s : Region) : Prop :=
  s.base ≤ r.base ∧ r.fin ≤ s.fin

instance : Decidable (Apart r s) :=
  inferInstanceAs (Decidable (_ ∨ _))

instance : Decidable (Within r s) :=
  inferInstanceAs (Decidable (_ ∧ _))

theorem Apart.symm (h : r.Apart s) : s.Apart r :=
  Or.symm h

theorem Within.refl (r : Region) : r.Within r :=
  ⟨le_refl _, le_refl _⟩

theorem Within.trans (h : r.Within s) (h' : s.Within t) : r.Within t :=
  ⟨h'.1.trans h.1, h.2.trans h'.2⟩

theorem Apart.within (h : s.Apart t) (hr : r.Within s) : r.Apart t :=
  h.imp (hr.2.trans ·) (·.trans hr.1)

theorem Apart.base_ne (h : r.Apart s) (hr : 0 < r.size) (hs : 0 < s.size) : r.base ≠ s.base := by
  unfold Apart fin at h
  omega

/-- The beginning of a region. -/
theorem within_of_le {base n size : ℕ} (h : n ≤ size) : (Region.mk base n).Within ⟨base, size⟩ :=
  ⟨le_refl _, Nat.add_le_add_left h base⟩

/-- The regions of a set are apart from each other. -/
def Disjoint (blocks : Set Region) : Prop :=
  ∀ r ∈ blocks, ∀ s ∈ blocks, r = s ∨ r.Apart s

theorem Disjoint.mono {blocks blocks' : Set Region} (h : Disjoint blocks')
    (hsub : blocks ⊆ blocks') : Disjoint blocks :=
  fun r hr s hs => h r (hsub hr) s (hsub hs)

theorem Disjoint.union {blocks blocks' : Set Region} (h : Disjoint blocks)
    (h' : Disjoint blocks') (happ : ∀ r ∈ blocks, ∀ s ∈ blocks', r.Apart s) :
    Disjoint (blocks ∪ blocks') := by
  rintro r (hr | hr) s (hs | hs)
  · exact h r hr s hs
  · exact .inr (happ r hr s hs)
  · exact .inr (happ s hs r hr).symm
  · exact h' r hr s hs

theorem disjoint_singleton (r : Region) : Disjoint {r} := by
  rintro s rfl t rfl
  exact .inl rfl

/-- Two parts of a row, each in a place of its own of `size` addresses. -/
theorem row_apart {base size n k l : ℕ} (hn : n ≤ size) (hne : k ≠ l) :
    (Region.mk (base + k * size) n).Apart ⟨base + l * size, n⟩ := by
  unfold Apart fin
  dsimp only
  rcases Nat.lt_or_gt_of_ne hne with hlt | hlt
  · have hle : (k + 1) * size ≤ l * size := Nat.mul_le_mul_right size hlt
    rw [Nat.succ_mul] at hle
    omega
  · have hle : (l + 1) * size ≤ k * size := Nat.mul_le_mul_right size hlt
    rw [Nat.succ_mul] at hle
    omega

/-- A block of a row is inside it. -/
theorem row_within {base size n k : ℕ} (hk : k < n) :
    (Region.mk (base + k * size) size).Within ⟨base, n * size⟩ := by
  have hle : (k + 1) * size ≤ n * size := Nat.mul_le_mul_right size hk
  rw [Nat.succ_mul] at hle
  unfold Within fin
  dsimp only
  omega

end Region

/-! ## Memory -/

/-- Memory with the regions that are allocated and the headers of `hs` bytes in them. -/
structure RawMemory (H : Type*) (hs : ℕ) where
  regions : List Region
  headers : ℕ → Option H

namespace RawMemory

variable {H : Type*} {hs : ℕ} {m m' : RawMemory H hs} {p q : ℕ} {h : H} {r s : Region}

/-- Nothing is allocated. -/
def empty : RawMemory H hs :=
  ⟨[], fun _ => none⟩

/-- A region that `malloc` can return. -/
def Fresh (m : RawMemory H hs) (r : Region) : Prop :=
  0 < r.base ∧ ∀ s ∈ m.regions, r.Apart s ∧ r.base ≠ s.base

instance : Decidable (m.Fresh r) :=
  inferInstanceAs (Decidable (_ ∧ _))

/-- The memory in which what was in `r` is lost. -/
def erase (m : RawMemory H hs) (r : Region) : ℕ → Option H :=
  fun p => if (Region.mk p hs).Apart r then m.headers p else none

/-- The memory with the new region `r`. -/
def alloc (m : RawMemory H hs) (r : Region) : RawMemory H hs :=
  ⟨m.regions ++ [r], m.erase r⟩

/-- The memory without the region `r`. -/
def release (m : RawMemory H hs) (r : Region) : RawMemory H hs :=
  ⟨m.regions.erase r, m.erase r⟩

/-- The memory with the header `h` at `p`. -/
def put (m : RawMemory H hs) (p : ℕ) (h : H) : RawMemory H hs :=
  { m with headers := Function.update (m.erase ⟨p, hs⟩) p (some h) }

/-- `malloc(size)`, which returns `base`. -/
def malloc (m : RawMemory H hs) (base size : ℕ) : Except MemFault (RawMemory H hs) :=
  if m.Fresh ⟨base, size⟩ then .ok (m.alloc ⟨base, size⟩) else .error .notFresh

/-- `free(base)`. -/
def free (m : RawMemory H hs) (base : ℕ) : Except MemFault (RawMemory H hs) :=
  match m.regions.find? (·.base = base) with
  | some r => .ok (m.release r)
  | none => .error .badFree

/-- `*p`. -/
def read (m : RawMemory H hs) (p : ℕ) : Except MemFault H :=
  match m.headers p with
  | some h => .ok h
  | none => .error .uninitialised

/-- A header at `p` is inside a region. -/
def Holds (m : RawMemory H hs) (p : ℕ) : Prop :=
  ∃ r ∈ m.regions, (Region.mk p hs).Within r

instance : Decidable (m.Holds p) :=
  inferInstanceAs (Decidable (∃ _, _ ∧ _))

/-- `*p = h`. -/
def write (m : RawMemory H hs) (p : ℕ) (h : H) : Except MemFault (RawMemory H hs) :=
  if m.Holds p then .ok (m.put p h) else .error .outOfBounds

theorem fresh_empty (hr : 0 < r.base) : (empty : RawMemory H hs).Fresh r :=
  ⟨hr, fun _ hs => absurd hs List.not_mem_nil⟩

theorem malloc_eq (hr : m.Fresh ⟨p, q⟩) : m.malloc p q = .ok (m.alloc ⟨p, q⟩) :=
  if_pos hr

theorem malloc_eq_of_not (hr : ¬m.Fresh ⟨p, q⟩) : m.malloc p q = .error .notFresh :=
  if_neg hr

theorem malloc_eq_ok : m.malloc p q = .ok m' ↔ m.Fresh ⟨p, q⟩ ∧ m.alloc ⟨p, q⟩ = m' := by
  by_cases hr : m.Fresh ⟨p, q⟩
  · rw [malloc_eq hr]
    simp [hr]
  · rw [malloc_eq_of_not hr]
    simp [hr]

theorem read_eq (hp : m.headers p = some h) : m.read p = .ok h := by
  rw [read, hp]

theorem read_eq_ok : m.read p = .ok h ↔ m.headers p = some h := by
  unfold read
  cases m.headers p <;> simp

theorem write_eq (hp : m.Holds p) (h : H) : m.write p h = .ok (m.put p h) :=
  if_pos hp

theorem write_eq_of_not (hp : ¬m.Holds p) (h : H) : m.write p h = .error .outOfBounds :=
  if_neg hp

theorem write_eq_ok : m.write p h = .ok m' ↔ m.Holds p ∧ m.put p h = m' := by
  by_cases hp : m.Holds p
  · rw [write_eq hp]
    simp [hp]
  · rw [write_eq_of_not hp]
    simp [hp]

@[simp] theorem holds_put : (m.put p h).Holds q ↔ m.Holds q :=
  Iff.rfl

theorem headers_put : (m.put p h).headers = Function.update (m.erase ⟨p, hs⟩) p (some h) :=
  rfl

@[simp] theorem headers_put_self : (m.put p h).headers p = some h :=
  Function.update_self ..

/-- A write leaves alone the headers it does not overlap. -/
theorem headers_put_of_apart (hs0 : 0 < hs) (happ : (Region.mk q hs).Apart ⟨p, hs⟩) :
    (m.put p h).headers q = m.headers q := by
  have hne : q ≠ p := happ.base_ne hs0 hs0
  rw [headers_put, Function.update_of_ne hne, erase, if_pos happ]

@[simp] theorem put_put {h' : H} : (m.put p h).put p h' = m.put p h' := by
  have hheaders : ((m.put p h).put p h').headers = (m.put p h').headers := by
    funext q
    by_cases hq : q = p
    · rw [hq, headers_put_self, headers_put_self]
    · rw [headers_put, headers_put, Function.update_of_ne hq, Function.update_of_ne hq, erase,
        headers_put, Function.update_of_ne hq, erase]
      split <;> rfl
  exact congrArg (RawMemory.mk m.regions) hheaders

/-- A header that is there behind a write is the one written, or was there before. -/
theorem headers_put_cases {h' : H} (hq : (m.put p h).headers q = some h') :
    (q = p ∧ h' = h) ∨ (q ≠ p ∧ (Region.mk q hs).Apart ⟨p, hs⟩ ∧ m.headers q = some h') := by
  by_cases hne : q = p
  · subst hne
    rw [headers_put_self] at hq
    exact .inl ⟨rfl, (Option.some.inj hq).symm⟩
  · rw [headers_put, Function.update_of_ne hne, erase] at hq
    split at hq
    · rename_i happ
      exact .inr ⟨hne, happ, hq⟩
    · exact absurd hq nofun

theorem headers_alloc_of_apart (happ : (Region.mk p hs).Apart r) :
    (m.alloc r).headers p = m.headers p :=
  if_pos happ

theorem headers_release_of_apart (happ : (Region.mk p hs).Apart r) :
    (m.release r).headers p = m.headers p :=
  if_pos happ

theorem holds_congr (h : m'.regions = m.regions) : m'.Holds p ↔ m.Holds p := by
  rw [Holds, h, Holds]

theorem holds_alloc_self (hp : (Region.mk p hs).Within r) : (m.alloc r).Holds p :=
  ⟨r, List.mem_append_right _ (List.mem_singleton_self r), hp⟩

/-- The part `f` of the header at `p`. -/
def view {β : Type*} (m : RawMemory H hs) (f : H → β) (p : ℕ) : Option β :=
  (m.headers p).map f

theorem view_eq {β : Type*} (f : H → β) (hp : m.headers p = some h) : m.view f p = some (f h) :=
  congrArg (Option.map f) hp

theorem view_congr {β : Type*} (f : H → β) (hp : m'.headers p = m.headers p) :
    m'.view f p = m.view f p :=
  congrArg (Option.map f) hp

/-- Only one region has a given base. -/
def Bases (m : RawMemory H hs) : Prop :=
  (m.regions.map Region.base).Nodup

theorem Bases.alloc (hm : m.Bases) (hr : m.Fresh r) : (m.alloc r).Bases := by
  unfold Bases RawMemory.alloc
  rw [List.map_append]
  refine List.nodup_append.mpr ⟨hm, List.nodup_singleton _, fun b hb c hc hbc => ?_⟩
  obtain ⟨s, hs, rfl⟩ := List.mem_map.mp hb
  obtain rfl := List.mem_singleton.mp hc
  exact (hr.2 s hs).2 hbc.symm

theorem Bases.release (hm : m.Bases) (r : Region) : (m.release r).Bases :=
  hm.sublist (List.erase_sublist.map _)

theorem Bases.eq (hm : m.Bases) (hr : r ∈ m.regions) (hs : s ∈ m.regions)
    (hbase : r.base = s.base) : r = s :=
  List.inj_on_of_nodup_map hm hr hs hbase

theorem Bases.free_eq (hm : m.Bases) (hr : r ∈ m.regions) : m.free r.base = .ok (m.release r) := by
  unfold free
  cases hfind : m.regions.find? (·.base = r.base) with
  | some s =>
    have hs : s ∈ m.regions := List.mem_of_find?_eq_some hfind
    have hbase : s.base = r.base := by simpa using List.find?_some hfind
    rw [hm.eq hs hr hbase]
  | none =>
    exact absurd (decide_eq_true rfl) (List.find?_eq_none.mp hfind r hr)

theorem Bases.mem_release (hm : m.Bases) : s ∈ (m.release r).regions ↔ s ≠ r ∧ s ∈ m.regions :=
  (List.Nodup.of_map _ hm).mem_erase_iff

end RawMemory

end CellNet
