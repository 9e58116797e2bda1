import CellNet.Fallible
import Mathlib.Data.Int.Basic
import Mathlib.Data.List.TakeDrop
import Mathlib.Order.Basic
import Mathlib.Tactic.Ring

/-!
# Machine integers, memory blocks and byte order

What a model of a C++ program needs of the language : `int32` is the value of an `int`
computation, two's complement on 32 bits; `sizeT` is the conversion of a signed value to
a 64-bit `size_t`. A computation that may be undefined returns an `Exec`, an error
saying which rule was broken.

A block of memory is the list of its cells. `load`, `store` and `move` are a read, a
write and a `memmove`, undefined outside the block. `toLE` and `ofLE` are the
little-endian bytes of a natural number and back.
-/

namespace CellNet

/-! ## Undefined behaviour -/

/-- The rule an undefined operation broke. -/
inductive UB
  /-- A read or a write outside a block. -/
  | outOfBounds
  /-- A use of a null pointer. -/
  | nullDeref
  /-- A use of an object after its deletion. -/
  | useAfterFree
  /-- A second deletion of an object. -/
  | doubleFree
  /-- A use of the past-the-end iterator. -/
  | derefEnd
  deriving DecidableEq, Repr

/-- A computation that may be undefined. -/
abbrev Exec := Except UB

namespace Exec

universe u

variable {α β : Type u}

/-- A map returns when its argument does. -/
theorem map_eq_ok {f : α → β} {x : Exec α} {b : β} :
    f <$> x = .ok b ↔ ∃ a, x = .ok a ∧ f a = b := by
  cases x <;> simp

theorem toOption_eq_some {x : Exec α} {a : α} : x.toOption = some a ↔ x = .ok a := by
  cases x <;> simp [Except.toOption]

/-- `x` meets the postcondition `Q`, or is undefined in a way `E` allows. -/
def Sat (E : UB → Prop) (x : Exec α) (Q : α → Prop) : Prop :=
  match x with
  | .ok a => Q a
  | .error e => E e

namespace Sat

variable {E : UB → Prop}

@[simp] theorem ok_iff {a : α} {Q : α → Prop} : Sat E (.ok a) Q ↔ Q a :=
  Iff.rfl

@[simp] theorem error_iff {e : UB} {Q : α → Prop} : Sat E (.error e) Q ↔ E e :=
  Iff.rfl

theorem mono {x : Exec α} {Q R : α → Prop} (h : Sat E x Q) (hQR : ∀ a, Q a → R a) :
    Sat E x R := by
  cases x with
  | ok a => exact hQR a h
  | error e => exact h

theorem bind {x : Exec α} {f : α → Exec β} {Q : α → Prop} {R : β → Prop} (h : Sat E x Q)
    (hf : ∀ a, Q a → Sat E (f a) R) : Sat E (x >>= f) R := by
  cases x with
  | ok a => exact hf a h
  | error e => exact h

theorem map {f : α → β} {x : Exec α} {Q : α → Prop} {R : β → Prop} (h : Sat E x Q)
    (hf : ∀ a, Q a → R (f a)) : Sat E (f <$> x) R := by
  cases x with
  | ok a => exact hf a h
  | error e => exact h

/-- Nothing is said. -/
theorem any (x : Exec α) : Sat (fun _ => True) x fun _ => True := by
  cases x <;> trivial

/-- A bind whose first part may return anything. -/
theorem bind_any {x : Exec α} {f : α → Exec β} {R : β → Prop}
    (hf : ∀ a, Sat (fun _ => True) (f a) R) : Sat (fun _ => True) (x >>= f) R :=
  (any x).bind fun a _ => hf a

/-- The postcondition may say what was returned. -/
theorem eq_ok {x : Exec α} (h : Sat E x fun _ => True) : Sat E x fun a => x = .ok a := by
  cases x with
  | ok a => rfl
  | error e => exact h

/-- If nothing undefined is allowed, the computation returns. -/
theorem exists_ok {x : Exec α} {Q : α → Prop} (h : Sat (fun _ => False) x Q) :
    ∃ a, x = .ok a ∧ Q a := by
  cases x with
  | ok a => exact ⟨a, rfl, h⟩
  | error e => exact absurd h not_false

/-- The rule of a `for` loop, `I xs` holding when `xs` is still to be done. -/
theorem foldlM {f : β → α → Exec β} {I : List α → β → Prop}
    (hf : ∀ x xs s, I (x :: xs) s → Sat E (f s x) (I xs)) :
    ∀ xs s, I xs s → Sat E (xs.foldlM f s) (I [])
  | [], _, h => h
  | x :: xs, s, h => by
    rw [List.foldlM_cons]
    exact (hf x xs s h).bind fun s' hs' => foldlM hf xs s' hs'

end Sat

end Exec

/-- An `Exec` in which a loop may not have ended yet. -/
abbrev Looping :=
  ExceptT UB Option

namespace Looping

variable {α β : Type}

/-- `x` has ended, and returns `a`. -/
def Returns (x : Looping α) (a : α) : Prop :=
  x.run = some (.ok a)

@[simp] theorem returns_pure {a b : α} : Returns (pure a) b ↔ a = b := by
  simp [Returns]

@[simp] theorem returns_lift {x : Exec α} {a : α} : Returns (liftM x) a ↔ x = .ok a :=
  Option.some_inj

@[simp] theorem lift_ok (a : α) : (liftM (.ok a : Exec α) : Looping α) = pure a :=
  rfl

theorem lift_map (f : α → β) (x : Exec α) : (liftM (f <$> x) : Looping β) = f <$> liftM x := by
  cases x <;> rfl

@[simp] theorem returns_mk {x : Option (Exec α)} {a : α} :
    Returns (ExceptT.mk x) a ↔ x = some (.ok a) :=
  Iff.rfl

/-- A bind returns when both parts do. -/
theorem returns_bind {x : Looping α} {f : α → Looping β} {b : β} :
    Returns (x >>= f) b ↔ ∃ a, Returns x a ∧ Returns (f a) b := by
  unfold Returns
  rw [ExceptT.run_bind]
  cases hx : x.run with
  | none => simp
  | some r => cases r <;> simp

/-- A map returns when its argument does. -/
theorem returns_map {f : α → β} {x : Looping α} {b : β} :
    Returns (f <$> x) b ↔ ∃ a, Returns x a ∧ f a = b := by
  rw [map_eq_pure_bind, returns_bind]
  simp only [returns_pure]

end Looping

/-! ## Machine integers -/

/-- The value of an `int` computation : 32 bits, two's complement. -/
def int32 (x : ℤ) : ℤ :=
  x.bmod 4294967296

theorem int32_eq {x : ℤ} (h : -2147483648 ≤ x) (h' : x < 2147483648) : int32 x = x := by
  unfold int32
  rw [Int.bmod_def]
  split <;> omega

/-- Values that agree on 32 bits are the same `int`. -/
theorem int32_congr {x y : ℤ} (h : x % 4294967296 = y % 4294967296) : int32 x = int32 y := by
  simp only [int32, Int.bmod_def]
  rw [show ((4294967296 : ℕ) : ℤ) = 4294967296 from rfl, h]

theorem int32_emod (x : ℤ) : int32 x % 4294967296 = x % 4294967296 := by
  unfold int32
  rw [Int.bmod_def]
  split <;> omega

theorem int32_int32 (x : ℤ) : int32 (int32 x) = int32 x :=
  int32_congr (int32_emod x)

theorem int32_add_int32 (x y : ℤ) : int32 (int32 x + y) = int32 (x + y) := by
  apply int32_congr
  rw [Int.add_emod, int32_emod, ← Int.add_emod]

theorem int32_sub_int32 (x y : ℤ) : int32 (int32 x - y) = int32 (x - y) :=
  int32_add_int32 x (-y)

/-- Taking one off is seen. -/
theorem int32_sub_one_ne {x : ℤ} : int32 (x - 1) ≠ int32 x := by
  intro h
  have hmod := int32_emod x
  rw [← h, int32_emod] at hmod
  omega

theorem int32_eq_zero_iff {x : ℤ} : int32 x = 0 ↔ x % 4294967296 = 0 := by
  unfold int32
  rw [Int.bmod_def]
  split <;> omega

/-- A test of a number `n` narrowed to an `int` against `k` is one of `n` itself, if `n` is
at most `k` or its low 32 bits are more than `k` and not the bits of a negative `int`. -/
theorem int32_le_imp_iff {n : ℕ} {k : ℤ} (hk : 0 ≤ k) (hk' : k < 2147483648) :
    (int32 n ≤ k → n ≤ k) ↔ n ≤ k ∨
      (k < ((n % 4294967296 : ℕ) : ℤ) ∧ n % 4294967296 < 2147483648) := by
  have hbmod : int32 n = if n % 4294967296 < 2147483648 then ((n % 4294967296 : ℕ) : ℤ)
      else ((n % 4294967296 : ℕ) : ℤ) - 4294967296 := by
    rw [int32, Int.bmod_def]
    split <;> split <;> omega
  rw [hbmod]
  split <;> omega

/-- The conversion to `size_t`. -/
def sizeT (x : ℤ) : ℕ :=
  (x % 18446744073709551616).toNat

theorem sizeT_eq {x : ℤ} (h : 0 ≤ x) (h' : x < 18446744073709551616) : sizeT x = x.toNat := by
  unfold sizeT
  rw [Int.emod_eq_of_lt h h']

theorem sizeT_natCast_mod (n : ℕ) : sizeT n = n % 18446744073709551616 := by
  unfold sizeT
  omega

theorem sizeT_natCast {n : ℕ} (h : n < 18446744073709551616) : sizeT n = n := by
  rw [sizeT_natCast_mod, Nat.mod_eq_of_lt h]

/-- The conversion to `uint32_t`. -/
def uint32 (x : ℤ) : ℕ :=
  (x % 4294967296).toNat

theorem uint32_natCast {n : ℕ} (h : n < 4294967296) : uint32 n = n := by
  unfold uint32
  omega

/-! ## Blocks -/

namespace Block

variable {α : Type*}

/-- The `n` cells at `off`. -/
def load (m : List α) (off n : ℤ) : Exec (List α) :=
  if 0 ≤ off ∧ 0 ≤ n ∧ off + n ≤ m.length then .ok ((m.drop off.toNat).take n.toNat)
  else .error .outOfBounds

/-- The block with `xs` written at `off`. -/
def store (m : List α) (off : ℤ) (xs : List α) : Exec (List α) :=
  if 0 ≤ off ∧ off + xs.length ≤ m.length then
    .ok (m.take off.toNat ++ xs ++ m.drop (off.toNat + xs.length))
  else .error .outOfBounds

/-- The block after `memmove` of `n` cells from `src` to `dst`. -/
def move (m : List α) (dst src n : ℤ) : Exec (List α) := do
  let xs ← load m src n
  store m dst xs

theorem load_eq (m : List α) (off n : ℕ) (h : off + n ≤ m.length) :
    load m off n = .ok ((m.drop off).take n) := by
  rw [load, if_pos (by omega)]
  simp

theorem store_eq (m xs : List α) (off : ℕ) (h : off + xs.length ≤ m.length) :
    store m off xs = .ok (m.take off ++ xs ++ m.drop (off + xs.length)) := by
  rw [store, if_pos (by omega)]
  simp

/-- A read returns exactly inside the block. -/
theorem load_eq_ok {m xs : List α} {off n : ℤ} : load m off n = .ok xs ↔
    (0 ≤ off ∧ 0 ≤ n ∧ off + n ≤ m.length) ∧ (m.drop off.toNat).take n.toNat = xs := by
  unfold load
  split <;> simp_all

/-- A write returns exactly inside the block. -/
theorem store_eq_ok {m m' xs : List α} {off : ℤ} : store m off xs = .ok m' ↔
    (0 ≤ off ∧ off + xs.length ≤ m.length) ∧
      m.take off.toNat ++ xs ++ m.drop (off.toNat + xs.length) = m' := by
  unfold store
  split <;> simp_all

/-- Moving the tail behind `src` to the front. -/
theorem move_zero_eq {m : List α} {src n : ℕ} (h : src + n ≤ m.length) :
    move m 0 src n = .ok ((m.drop src).take n ++ m.drop n) := by
  have hlen : ((m.drop src).take n).length = n := by simp; omega
  rw [move, load_eq _ _ _ h, Fallible.ok_bind, ← Nat.cast_zero, store_eq _ _ _ (by omega), hlen]
  simp

/-- An access to a block is undefined in one way only. -/
theorem load_sat {E : UB → Prop} (hE : E .outOfBounds) (m : List α) (off n : ℤ) :
    Exec.Sat E (load m off n) fun _ => True := by
  unfold load
  split
  · trivial
  · exact hE

theorem store_sat {E : UB → Prop} (hE : E .outOfBounds) (m xs : List α) (off : ℤ) :
    Exec.Sat E (store m off xs) fun _ => True := by
  unfold store
  split
  · trivial
  · exact hE

theorem move_sat {E : UB → Prop} (hE : E .outOfBounds) (m : List α) (dst src n : ℤ) :
    Exec.Sat E (move m dst src n) fun _ => True :=
  (load_sat hE m src n).bind fun xs _ => store_sat hE m xs dst

end Block

/-! ## Byte order -/

/-- The `w` low bytes of `x`, the lowest first. -/
def toLE : ℕ → ℕ → List UInt8
  | 0, _ => []
  | w + 1, x => UInt8.ofNat x :: toLE w (x / 256)

/-- The value of little-endian bytes. -/
def ofLE : List UInt8 → ℕ
  | [] => 0
  | b :: bs => b.toNat + 256 * ofLE bs

@[simp] theorem length_toLE : ∀ w x, (toLE w x).length = w
  | 0, _ => rfl
  | w + 1, x => by rw [toLE, List.length_cons, length_toLE w]

theorem ofLE_toLE : ∀ w x, ofLE (toLE w x) = x % 256 ^ w
  | 0, x => by simp [toLE, ofLE, Nat.mod_one]
  | w + 1, x => by
    have hb : (UInt8.ofNat x).toNat = x % 256 := by simp
    rw [toLE, ofLE, ofLE_toLE w, hb, pow_succ', Nat.mod_mul]

theorem ofLE_lt : ∀ bs : List UInt8, ofLE bs < 256 ^ bs.length
  | [] => by simp [ofLE]
  | b :: bs => by
    have hb := b.toNat_lt
    have hbs := ofLE_lt bs
    rw [ofLE, List.length_cons, pow_succ']
    omega

/-- The bytes of an `int` in memory. -/
def int32LE (x : ℤ) : List UInt8 :=
  toLE 4 (x % 4294967296).toNat

/-- The `int` of four bytes in memory. -/
def ofInt32LE (bs : List UInt8) : ℤ :=
  int32 (ofLE bs)

@[simp] theorem length_int32LE (x : ℤ) : (int32LE x).length = 4 :=
  length_toLE _ _

theorem ofInt32LE_int32LE (x : ℤ) : ofInt32LE (int32LE x) = int32 x := by
  unfold ofInt32LE int32LE
  rw [ofLE_toLE]
  apply int32_congr
  omega

end CellNet
