import Mathlib.Data.List.Nodup
import Mathlib.Data.List.Perm.Basic
import Mathlib.Order.Lattice

/-!
# Sorted maps

`std::map` as the list of its entries in the order of iteration, with strictly
increasing keys. The sortedness is a field, so no map has two entries for one key.
`set` is `m[k] = v`, `erase` removes an entry, `find` looks one up.

What the operations do to the entries is stated up to their order : `set_perm` for a
new key, `erase_perm` for an entry that is there. `find_set` is what a look-up finds after
`set`.
-/

namespace CellNet

/-- The entries of a map, by increasing key. -/
structure SortedMap (κ ν : Type) [LinearOrder κ] where
  entries : List (κ × ν)
  sorted : entries.Pairwise fun e e' => e.1 < e'.1

namespace SortedMap

variable {κ ν : Type} [LinearOrder κ]

/-- The entries with `k` mapped to `v`. -/
def setEntries (k : κ) (v : ν) : List (κ × ν) → List (κ × ν)
  | [] => [(k, v)]
  | e :: es =>
    if k < e.1 then (k, v) :: e :: es
    else if k = e.1 then (k, v) :: es
    else e :: setEntries k v es

theorem mem_setEntries {k : κ} {v : ν} {x : κ × ν} :
    ∀ {es : List (κ × ν)}, x ∈ setEntries k v es → x = (k, v) ∨ x ∈ es
  | [], h => by simpa [setEntries] using h
  | e :: es, h => by
    rw [setEntries] at h
    split_ifs at h with hlt heq
    · simpa using h
    · rcases List.mem_cons.mp h with h | h
      · exact Or.inl h
      · exact Or.inr (List.mem_cons_of_mem _ h)
    · rcases List.mem_cons.mp h with h | h
      · exact Or.inr (h ▸ List.mem_cons_self)
      · exact (mem_setEntries h).imp_right (List.mem_cons_of_mem _)

theorem sorted_setEntries (k : κ) (v : ν) : ∀ {es : List (κ × ν)},
    es.Pairwise (fun e e' => e.1 < e'.1) →
      (setEntries k v es).Pairwise fun e e' => e.1 < e'.1
  | [], _ => List.pairwise_singleton _ _
  | e :: es, h => by
    obtain ⟨he, hes⟩ := List.pairwise_cons.mp h
    rw [setEntries]
    split_ifs with hlt heq
    · refine List.pairwise_cons.mpr ⟨fun x hx => ?_, h⟩
      rcases List.mem_cons.mp hx with rfl | hx
      · exact hlt
      · exact hlt.trans (he x hx)
    · exact List.pairwise_cons.mpr ⟨fun x hx => heq ▸ he x hx, hes⟩
    · refine List.pairwise_cons.mpr ⟨fun x hx => ?_, sorted_setEntries k v hes⟩
      rcases mem_setEntries hx with rfl | hx
      · exact lt_of_le_of_ne (not_lt.mp hlt) (Ne.symm heq)
      · exact he x hx

theorem setEntries_perm {k : κ} {v : ν} : ∀ {es : List (κ × ν)}, (∀ e ∈ es, e.1 ≠ k) →
    (setEntries k v es).Perm ((k, v) :: es)
  | [], _ => .refl _
  | e :: es, h => by
    rw [setEntries]
    split_ifs with hlt heq
    · exact .refl _
    · exact absurd heq.symm (h e List.mem_cons_self)
    · have hes := setEntries_perm (v := v) fun e' he' => h e' (List.mem_cons_of_mem _ he')
      exact (hes.cons e).trans (.swap _ _ _)

/-- The map without entries. -/
def empty : SortedMap κ ν :=
  ⟨[], List.Pairwise.nil⟩

/-- `m[k] = v`. -/
def set (m : SortedMap κ ν) (k : κ) (v : ν) : SortedMap κ ν :=
  ⟨setEntries k v m.entries, sorted_setEntries k v m.sorted⟩

/-- `m.erase(k)`. -/
def erase (m : SortedMap κ ν) (k : κ) : SortedMap κ ν :=
  ⟨m.entries.filter fun e => e.1 ≠ k, m.sorted.filter _⟩

/-- `m.find(k)`, `none` for the end. -/
def find (m : SortedMap κ ν) (k : κ) : Option (κ × ν) :=
  m.entries.find? fun e => e.1 = k

/-- `m.size()`. -/
def size (m : SortedMap κ ν) : ℕ :=
  m.entries.length

/-- The values, in the order of the keys. -/
def values (m : SortedMap κ ν) : List ν :=
  m.entries.map Prod.snd

/-- The keys, in their order. -/
def keys (m : SortedMap κ ν) : List κ :=
  m.entries.map Prod.fst

variable {m : SortedMap κ ν} {k : κ} {v : ν} {e : κ × ν}

@[simp] theorem entries_empty : (empty : SortedMap κ ν).entries = [] :=
  rfl

@[simp] theorem values_empty : (empty : SortedMap κ ν).values = [] :=
  rfl

@[simp] theorem length_values : m.values.length = m.size := by
  simp [values, size]

theorem sorted_keys (m : SortedMap κ ν) : m.keys.Pairwise (· < ·) :=
  List.pairwise_map.mpr m.sorted

theorem mem_keys : k ∈ m.keys ↔ ∃ v, (k, v) ∈ m.entries := by
  simp [keys]

/-- A key has one value. -/
theorem eq_of_mem {v' : ν} (h : (k, v) ∈ m.entries) (h' : (k, v') ∈ m.entries) : v = v' := by
  have hkeys : m.keys.Nodup := m.sorted_keys.imp ne_of_lt
  exact congrArg Prod.snd (List.inj_on_of_nodup_map hkeys h h' rfl)

/-- The last key is the largest. -/
theorem le_getLast (hk : k ∈ m.keys) {l : κ} (hl : m.keys.getLast? = some l) : k ≤ l := by
  obtain ⟨ks, hks⟩ := List.getLast?_eq_some_iff.mp hl
  have hsorted := m.sorted_keys
  rw [hks] at hk hsorted
  rcases List.mem_append.mp hk with hk | hk
  · exact le_of_lt ((List.pairwise_append.mp hsorted).2.2 k hk l List.mem_cons_self)
  · exact le_of_eq (List.mem_singleton.mp hk)

theorem nodup_entries (m : SortedMap κ ν) : m.entries.Nodup :=
  m.sorted.imp fun hlt heq => (ne_of_lt hlt) (congrArg Prod.fst heq)

/-- A map is determined by its entries, whatever their order. -/
theorem eq_of_mem_iff {m' : SortedMap κ ν} (h : ∀ e, e ∈ m.entries ↔ e ∈ m'.entries) :
    m = m' := by
  have hperm : m.entries.Perm m'.entries :=
    (List.perm_ext_iff_of_nodup m.nodup_entries m'.nodup_entries).mpr h
  have hentries : m.entries = m'.entries :=
    hperm.eq_of_pairwise (fun _ _ _ _ hlt hgt => absurd hgt (lt_asymm hlt)) m.sorted m'.sorted
  obtain ⟨es, hsorted⟩ := m
  obtain ⟨es', hsorted'⟩ := m'
  obtain rfl : es = es' := hentries
  rfl

theorem set_perm (h : ∀ e ∈ m.entries, e.1 ≠ k) :
    (m.set k v).entries.Perm ((k, v) :: m.entries) :=
  setEntries_perm h

theorem mem_erase : e ∈ (m.erase k).entries ↔ e ∈ m.entries ∧ e.1 ≠ k := by
  simp [erase]

theorem erase_perm (h : (k, v) ∈ m.entries) :
    m.entries.Perm ((k, v) :: (m.erase k).entries) := by
  have hsplit := (List.filter_append_perm (fun e : κ × ν => decide (e.1 = k)) m.entries).symm
  have hone : m.entries.filter (fun e => decide (e.1 = k)) = [(k, v)] := by
    refine List.perm_singleton.mp ((List.perm_ext_iff_of_nodup ?_ (by simp)).mpr fun x => ?_)
    · exact m.nodup_entries.filter _
    · simp only [List.mem_filter, decide_eq_true_eq, List.mem_singleton]
      constructor
      · rintro ⟨hx, rfl⟩
        exact Prod.ext rfl (eq_of_mem hx h)
      · rintro rfl
        exact ⟨h, rfl⟩
  rw [hone] at hsplit
  simpa [erase] using hsplit

theorem find_eq (h : (k, v) ∈ m.entries) : m.find k = some (k, v) := by
  cases hf : m.find k with
  | none =>
    have := List.find?_eq_none.mp hf (k, v) h
    simp at this
  | some x =>
    have hx : x ∈ m.entries := List.mem_of_find?_eq_some hf
    have hk : x.1 = k := by simpa using List.find?_some hf
    obtain ⟨k', v'⟩ := x
    obtain rfl : k' = k := hk
    rw [eq_of_mem hx h]

theorem find_eq_some {e : κ × ν} : m.find k = some e ↔ e ∈ m.entries ∧ e.1 = k := by
  constructor
  · exact fun hf => ⟨List.mem_of_find?_eq_some hf, by simpa using List.find?_some hf⟩
  · rintro ⟨he, rfl⟩
    exact find_eq he

theorem mem_setEntries_iff {x : κ × ν} : ∀ {es : List (κ × ν)},
    es.Pairwise (fun e e' => e.1 < e'.1) →
      (x ∈ setEntries k v es ↔ x = (k, v) ∨ x ∈ es ∧ x.1 ≠ k)
  | [], _ => by simp [setEntries]
  | e :: es, h => by
    obtain ⟨he, hes⟩ := List.pairwise_cons.mp h
    have hlater : k ≤ e.1 → x ∈ es → x.1 ≠ k :=
      fun hle hx => ne_of_gt (hle.trans_lt (he x hx))
    rw [setEntries]
    split_ifs with hlt heq
    · rw [List.mem_cons, List.mem_cons]
      refine or_congr_right ⟨fun hx => ⟨hx, ?_⟩, fun hx => hx.1⟩
      rcases hx with rfl | hx
      · exact ne_of_gt hlt
      · exact hlater hlt.le hx
    · rw [List.mem_cons, List.mem_cons]
      refine or_congr_right ⟨fun hx => ⟨Or.inr hx, hlater heq.le hx⟩, fun hx => ?_⟩
      exact hx.1.resolve_left fun hxe => hx.2 (hxe ▸ heq.symm)
    · rw [List.mem_cons, mem_setEntries_iff hes, List.mem_cons]
      constructor
      · rintro (rfl | rfl | hx)
        · exact Or.inr ⟨Or.inl rfl, Ne.symm heq⟩
        · exact Or.inl rfl
        · exact Or.inr ⟨Or.inr hx.1, hx.2⟩
      · rintro (rfl | ⟨rfl | hx, hne⟩)
        · exact Or.inr (Or.inl rfl)
        · exact Or.inl rfl
        · exact Or.inr (Or.inr ⟨hx, hne⟩)

/-- What is found after `m[k] = v`. -/
theorem find_set (m : SortedMap κ ν) (k : κ) (v : ν) (k' : κ) :
    (m.set k v).find k' = if k' = k then some (k, v) else m.find k' := by
  refine Option.ext fun x => ?_
  rw [find_eq_some, set, mem_setEntries_iff m.sorted]
  split_ifs with hk
  · rw [Option.some.injEq, hk]
    constructor
    · rintro ⟨rfl | ⟨-, hne⟩, hx⟩
      · rfl
      · exact absurd hx hne
    · rintro rfl
      exact ⟨Or.inl rfl, rfl⟩
  · rw [find_eq_some]
    constructor
    · rintro ⟨rfl | ⟨hx, -⟩, hxk⟩
      · exact absurd hxk.symm hk
      · exact ⟨hx, hxk⟩
    · rintro ⟨hx, rfl⟩
      exact ⟨Or.inr ⟨hx, hk⟩, rfl⟩

end SortedMap

end CellNet
