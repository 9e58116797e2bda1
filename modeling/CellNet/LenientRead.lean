import CellNet.Codec

/-!
# Reads that fall back

A read of a `CELLReadStream` that fails leaves the position where it is and returns a
default, so a handler that does not look at the results reads on, and takes the same bytes
for another type. `takeScalar` and `takeArray` say what `ReadInt8` to `ReadDouble` and
`ReadArray` make of the unread bytes of a message, whatever these are.
`Unread.lenientScalar` and `Unread.lenientArray` : a stream does just that, and the bytes
behind its message play no part.
-/

namespace CellNet

/-! ## On the unread bytes -/

/-- What a read makes of the unread bytes : a value, what is left unread, and the lines it
logs. -/
structure Taken (α : Type) where
  value : α
  rest : List UInt8
  log : List LogCall

/-- A read, and what follows it. -/
def Taken.bind {α β : Type} (p : Taken α) (f : α → List UInt8 → Taken β) : Taken β :=
  let q := f p.value p.rest
  ⟨q.value, q.rest, p.log ++ q.log⟩

@[simp] theorem Taken.mk_bind {α β : Type} (v : α) (rest : List UInt8) (log : List LogCall)
    (f : α → List UInt8 → Taken β) : bind ⟨v, rest, log⟩ f =
      ⟨(f v rest).value, (f v rest).rest, log ++ (f v rest).log⟩ :=
  rfl

/-- `n` elements of `w` bytes at the front of `bs`. -/
def chunks (w : ℕ) : ℕ → List UInt8 → List (Vector UInt8 w)
  | 0, _ => []
  | n + 1, bs => .ofFn (fun i => bs.getD i 0) :: chunks w n (bs.drop w)

@[simp] theorem length_chunks (w n : ℕ) (bs : List UInt8) : (chunks w n bs).length = n := by
  induction n generalizing bs with
  | zero => rfl
  | succ n ih => rw [chunks, List.length_cons, ih]

/-- `Read<T>` with its default 0. -/
def takeScalar (w : Width) (rest : List UInt8) : Taken (Vector UInt8 w.bytes) :=
  if w.bytes ≤ rest.length then ⟨.ofFn fun i => rest.getD i 0, rest.drop w.bytes, []⟩
  else ⟨.replicate _ 0, rest, [.streamReadFailed]⟩

/-- A count that is read without moving, and 0 if there is none. -/
def peekCount (rest : List UInt8) : Taken ℕ :=
  if 4 ≤ rest.length then ⟨ofLE (rest.take 4), rest, []⟩ else ⟨0, rest, [.streamReadFailed]⟩

/-- `ReadArray<T>` for at most `len` elements, and no element if it fails. -/
def takeArray (w : Width) (len : ℕ) (rest : List UInt8) :
    Taken { vs : List (Vector UInt8 w.bytes) // vs.length ≤ len } :=
  let n := (peekCount rest).value
  if h : n ≤ len ∧ n * w.bytes + 4 ≤ rest.length then
    ⟨⟨chunks w.bytes n (rest.drop 4), by rw [length_chunks]; exact h.1⟩,
      rest.drop (n * w.bytes + 4), []⟩
  else ⟨⟨[], Nat.zero_le _⟩, rest, (peekCount rest).log ++ [.streamReadArrayFailed]⟩

variable {rest bs : List UInt8} {w : Width} {n len : ℕ}

/-- The bytes of the vector at the front of `bs`. -/
theorem toList_ofFn_getD {w : ℕ} (h : w ≤ bs.length) :
    (Vector.ofFn fun i : Fin w => bs.getD i 0).toList = bs.take w := by
  apply List.ext_getElem
  · simp [h]
  · intro i hi hi'
    simp only [Vector.toList_ofFn, List.getElem_ofFn, List.getElem_take]
    have hlt : i < bs.length := by
      rw [List.length_take] at hi'
      omega
    rw [List.getD_eq_getElem?_getD, List.getElem?_eq_getElem hlt, Option.getD_some]

theorem elements_chunks {w : ℕ} (h : n * w ≤ bs.length) :
    elements (chunks w n bs) = bs.take (n * w) := by
  induction n generalizing bs with
  | zero => simp [chunks, elements]
  | succ n ih =>
    rw [Nat.succ_mul] at h
    rw [chunks, elements, List.flatMap_cons, ← elements, toList_ofFn_getD (by omega),
      ih (by rw [List.length_drop]; omega), Nat.succ_mul, Nat.add_comm, List.take_add]

theorem elements_inj {w : ℕ} {vs vs' : List (Vector UInt8 w)} (hlen : vs.length = vs'.length)
    (h : elements vs = elements vs') : vs = vs' := by
  induction vs generalizing vs' with
  | nil => exact (List.length_eq_zero_iff.mp hlen.symm).symm
  | cons v vs ih =>
    obtain ⟨v', vs', rfl⟩ := List.exists_cons_of_length_eq_add_one hlen.symm
    rw [elements, elements, List.flatMap_cons, List.flatMap_cons] at h
    obtain ⟨hv, hvs⟩ := List.append_inj h (by simp)
    rw [Vector.toList_inj.mp hv, ih (by simpa using hlen) hvs]

/-- A scalar is taken as it was written. -/
theorem takeScalar_append (v : Vector UInt8 w.bytes) :
    takeScalar w (v.toList ++ rest) = ⟨v, rest, []⟩ := by
  have hv : (Vector.ofFn fun i : Fin w.bytes => (v.toList ++ rest).getD i 0) = v := by
    rw [← Vector.toList_inj, toList_ofFn_getD (by simp), List.take_left' Vector.length_toList]
  rw [takeScalar, if_pos (by simp), hv, List.drop_left' Vector.length_toList]

/-- So is an array, if there is room for it. -/
theorem takeArray_append {vs : List (Vector UInt8 w.bytes)} (hlen : vs.length ≤ len)
    (hcount : vs.length < 4294967296) :
    takeArray w len (toLE 4 vs.length ++ elements vs ++ rest) = ⟨⟨vs, hlen⟩, rest, []⟩ := by
  have h4 : (peekCount (toLE 4 vs.length ++ elements vs ++ rest)).value = vs.length := by
    rw [peekCount, if_pos (by simp), List.append_assoc,
      List.take_left' (length_toLE 4 _), ofLE_toLE]
    exact Nat.mod_eq_of_lt hcount
  have hbytes : (toLE 4 vs.length ++ elements vs ++ rest).length =
      vs.length * w.bytes + 4 + rest.length := by
    simp only [List.length_append, length_toLE, length_elements]
    omega
  have hdrop : (toLE 4 vs.length ++ elements vs ++ rest).drop 4 = elements vs ++ rest := by
    rw [List.append_assoc, List.drop_left' (length_toLE 4 _)]
  have hvs : chunks w.bytes vs.length (elements vs ++ rest) = vs := by
    refine elements_inj (length_chunks _ _ _) ?_
    rw [elements_chunks (by simp), List.take_left' (length_elements vs)]
  rw [takeArray]
  simp only [h4]
  rw [dif_pos ⟨hlen, by omega⟩]
  congr 1
  · simp only [hdrop, hvs]
  · exact List.drop_left' (by simp; omega)

/-! ## On a stream -/

namespace CELLStream

variable {s : CELLStream}

theorem Unread.logged (hs : s.Unread rest) (l : LogCall) : (s.logged l).Unread rest :=
  ⟨hs.block, hs.nonneg, hs.le, hs.int, hs.bytes⟩

/-- `Read<T>`, with the value its caller goes on with. -/
theorem Unread.lenientRead (hs : s.Unread rest) (w : Width) : ∃ v rest' log r t,
    takeScalar w rest = ⟨v, rest', log⟩ ∧ s.read w.bytes true = .ok (r, t) ∧
    r.getD (toLE w.bytes 0) = v.toList ∧ t.Unread rest' ∧ t.log = s.log ++ log := by
  have hw : w.bytes ≤ 8 := by cases w <;> decide
  by_cases hle : w.bytes ≤ rest.length
  · have htake : (rest.take w.bytes).length = w.bytes := by simp [hle]
    have hs' := hs
    rw [← List.take_append_drop w.bytes rest] at hs'
    exact ⟨_, _, _, _, _, if_pos hle, hs'.read htake true, (toList_ofFn_getD hle).symm,
      hs'.pop htake, by simp [CELLStream.pop]⟩
  · have hzero : toLE w.bytes 0 = (Vector.replicate w.bytes (0 : UInt8)).toList := by
      cases w <;> rfl
    exact ⟨_, _, _, _, _, if_neg hle, hs.read_none (by omega) (by omega) true, hzero,
      hs.logged .streamReadFailed, rfl⟩

theorem Unread.lenientScalar (hs : s.Unread rest) (w : Width) : ∃ v rest' log t,
    takeScalar w rest = ⟨v, rest', log⟩ ∧ s.readScalar w.bytes = .ok (v.toList, t) ∧
    t.Unread rest' ∧ t.log = s.log ++ log := by
  obtain ⟨v, rest', log, r, t, htake, hread, hv, ht⟩ := hs.lenientRead w
  refine ⟨v, rest', log, t, htake, ?_, ht⟩
  rw [CELLStream.readScalar, hread, Fallible.ok_bind, ← hv]
  rfl

theorem Unread.lenientCmd (hs : s.Unread rest) : ∃ v rest' log c t,
    takeScalar .two rest = ⟨v, rest', log⟩ ∧ s.getNetCmd = .ok (c, t) ∧
    t.Unread rest' ∧ t.log = s.log ++ log := by
  obtain ⟨v, rest', log, r, t, htake, hread, -, ht⟩ := hs.lenientRead .two
  refine ⟨v, rest', log, (r.map ofLE).getD CMD.error.code, t, htake, ?_, ht⟩
  rw [getNetCmd, show s.read 2 true = .ok (r, t) from hread]
  rfl

/-- A count read without moving. -/
theorem Unread.lenientCount (hs : s.Unread rest) : ∃ n log r t,
    peekCount rest = ⟨n, rest, log⟩ ∧ s.read 4 false = .ok (r, t) ∧
    (r.map ofLE).getD 0 = n ∧ t.Unread rest ∧ t.log = s.log ++ log := by
  by_cases hle : 4 ≤ rest.length
  · have htake : (rest.take 4).length = 4 := by simp [hle]
    have hs' := hs
    rw [← List.take_append_drop 4 rest] at hs'
    exact ⟨_, _, _, s, if_pos hle, hs'.read htake false, rfl, hs, by simp⟩
  · exact ⟨0, _, none, _, if_neg hle, hs.read_none (by decide) (by omega) false, rfl,
      hs.logged _, rfl⟩

theorem Unread.lenientArray (hs : s.Unread rest) (w : Width) (len : ℕ) (pArr : List UInt8)
    (hlen : len * w.bytes + 4 < 2147483648) (hArr : len * w.bytes ≤ pArr.length) :
    ∃ vs rest' log t, takeArray w len rest = ⟨vs, rest', log⟩ ∧
    s.readArray w.bytes pArr len =
      .ok (vs.1.length, elements vs.1 ++ pArr.drop (elements vs.1).length, t) ∧
    t.Unread rest' ∧ t.log = s.log ++ log := by
  obtain ⟨n, log, r, u, hn, hread, hcount, hu, hlog⟩ := hs.lenientCount
  -- the test of the code is the one of `takeArray`
  have htest : (n ≤ len ∧ u.canRead (int32 (sizeTOf (sizeTOf (n * w.bytes) + 4))) = true) ↔
      n ≤ len ∧ n * w.bytes + 4 ≤ rest.length := by
    refine and_congr_right fun hle => ?_
    have hmul : n * w.bytes ≤ len * w.bytes := Nat.mul_le_mul_right _ hle
    rw [hu.canRead, sizeTOf_eq (n := n * w.bytes) (by omega), sizeTOf_eq (by omega),
      int32_eq (by omega) (by omega)]
    omega
  by_cases hok : n ≤ len ∧ n * w.bytes + 4 ≤ rest.length
  · have hmul : n * w.bytes ≤ len * w.bytes := Nat.mul_le_mul_right _ hok.1
    have hvalue : takeArray w len rest =
        ⟨⟨chunks w.bytes n (rest.drop 4), by rw [length_chunks]; exact hok.1⟩,
          rest.drop (n * w.bytes + 4), []⟩ := by
      simp only [takeArray, hn]
      rw [dif_pos hok]
    have helements : elements (chunks w.bytes n (rest.drop 4)) =
        (rest.drop 4).take (n * w.bytes) :=
      elements_chunks (by rw [List.length_drop]; omega)
    have hbytes : ((rest.drop 4).take (n * w.bytes)).length = n * w.bytes := by
      rw [List.length_take, List.length_drop]
      omega
    obtain rfl : [] = log := by
      rw [peekCount, if_pos (by omega)] at hn
      exact congrArg Taken.log hn
    have hsplit : u.Unread (rest.take 4 ++
        ((rest.drop 4).take (n * w.bytes) ++ rest.drop (n * w.bytes + 4))) := by
      rw [Nat.add_comm _ 4, ← List.drop_drop, List.take_append_drop, List.take_append_drop]
      exact hu
    have hpop := hsplit.pop (n := 4) (by rw [List.length_take]; omega)
    rw [int32_eq (by decide) (by decide), Nat.cast_ofNat] at hpop
    have hload := hpop.load
    rw [hbytes] at hload
    have hstore : Block.store pArr 0 ((rest.drop 4).take (n * w.bytes)) =
        .ok ((rest.drop 4).take (n * w.bytes) ++ pArr.drop (n * w.bytes)) := by
      simpa [hbytes] using Block.store_eq pArr ((rest.drop 4).take (n * w.bytes)) 0 (by omega)
    refine ⟨_, _, _, (u.pop 4).pop (int32 (n * w.bytes : ℕ)), hvalue, ?_, hpop.pop hbytes, ?_⟩
    · simp only [length_chunks, helements, hbytes]
      simp only [CELLStream.readArray, hread, Fallible.ok_bind, hcount]
      rw [if_pos (htest.mpr hok), sizeTOf_eq (by omega), hload, Fallible.ok_bind, hstore]
      rfl
    · simp only [CELLStream.pop, hlog, List.append_nil]
  · have hvalue : takeArray w len rest =
        ⟨⟨[], Nat.zero_le _⟩, rest, log ++ [.streamReadArrayFailed]⟩ := by
      simp only [takeArray, hn]
      rw [dif_neg hok]
    refine ⟨_, _, _, u.logged .streamReadArrayFailed, hvalue, ?_, hu.logged _, ?_⟩
    · simp only [CELLStream.readArray, hread, Fallible.ok_bind, hcount]
      rw [if_neg (mt htest.mp hok)]
      rfl
    · simp only [CELLStream.logged, hlog, List.append_assoc]

end CELLStream

end CellNet
