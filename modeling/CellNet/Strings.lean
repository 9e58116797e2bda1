import CellNet.StreamWrites

/-!
# Strings in a stream

`WriteString` writes a string as an array of its characters, `ReadString` is code of its
own. It returns false for the empty string without moving, and it inserts what it reads in
front of what the destination held : `string_round_trip_iff` says that a string is read
back exactly when it is not empty and the destination was.
-/

namespace CellNet

namespace CELLStream

variable {s t u r : CELLStream} {cap : ℕ} {str dst rest : List UInt8} {fields : List Field}

/-- `ReadString` returns true and the string, moves behind it, and the fields behind the
string are read. -/
def ReadsString (r : CELLStream) (str dst : List UInt8) (fields : List Field) : Prop :=
  ∃ r' r'', r.readString dst = .ok (true, str, r') ∧ r'.nReadPos = r.nReadPos + (4 + str.length) ∧
    r'.ReadsFields fields r''

/-- What `WriteString` appends. -/
theorem Writing.writeStdString (hs : Writing cap s) (hroom : 4 + str.length ≤ s.room)
    (h : s.writeStdString str = .ok (true, t)) :
    Writing cap t ∧ t.written = s.written ++ (toLE 4 str.length ++ str) := by
  have hbounds := hs.room_bounds
  rw [CELLStream.writeStdString, uint32_natCast (by omega)] at h
  exact hs.writeArray (Nat.mul_one _).symm (by omega) h

/-- `ReadString` with a count and the characters unread. -/
theorem Unread.readString (hr : r.Unread (toLE 4 str.length ++ (str ++ rest)))
    (hlen : str.length < 4294967296) (hne : str ≠ []) : r.readString dst =
      .ok (true, str ++ dst, (r.pop 4).pop (int32 str.length)) := by
  have hcount : r.read 4 false = .ok (some (toLE 4 str.length), r) :=
    hr.read (length_toLE 4 _) false
  have hvalue : ofLE (toLE 4 str.length) = str.length := by
    rw [ofLE_toLE]
    exact Nat.mod_eq_of_lt hlen
  have hpos : 0 < str.length := List.length_pos_iff.mpr hne
  have htotal := hr.length
  have hint := hr.int
  have hnonneg := hr.nonneg
  rw [List.length_append, length_toLE, List.length_append] at htotal
  have hroom : r.canRead (int32 (sizeTOf (str.length + 4))) = true := by
    rw [hr.canRead, sizeTOf_eq (by omega), int32_eq (by omega) (by omega), List.length_append,
      length_toLE, List.length_append]
    omega
  rw [CELLStream.readString, hcount]
  simp only [Fallible.ok_bind, Option.map_some, Option.getD_some, hvalue, hpos, hroom, and_self,
    if_true, hr.popCount.load]
  rfl

/-- `ReadString` in front of an empty string. -/
theorem Unread.readString_nil (hr : r.Unread (toLE 4 0 ++ rest)) :
    r.readString dst = .ok (false, dst, r) := by
  have hcount : r.read 4 false = .ok (some (toLE 4 0), r) := hr.read (length_toLE 4 _) false
  rw [CELLStream.readString, hcount]
  rfl

theorem Unread.not_readsString_nil (hr : r.Unread (toLE 4 0 ++ rest)) :
    ¬r.ReadsString [] dst fields := by
  rintro ⟨r', r'', hread, -⟩
  rw [hr.readString_nil] at hread
  simp at hread

end CELLStream

/-- When a string is read back. Whatever the string, its place in the stream, the
destination and the fields behind it, `ReadString` at that place returns the string and
leaves the reader in front of the fields exactly when the string is not empty and the
destination was. -/
theorem string_round_trip_iff {cap : ℕ} {s t u r : CELLStream} {str dst : List UInt8}
    {fields : List Field} (hs : CELLStream.Writing cap s) (hspace : 4 + str.length ≤ s.room)
    (hwrite : s.writeStdString str = .ok (true, t))
    (hfields : t.writeFields fields = .ok (true, u))
    (hr : r.Unread (u.written.drop s.written.length)) :
    r.ReadsString str dst fields ↔ str ≠ [] ∧ dst = [] := by
  have hbounds := hs.room_bounds
  obtain ⟨ht, hwritten⟩ := hs.writeStdString hspace hwrite
  obtain ⟨-, hwritten'⟩ := ht.writeFields hfields
  rw [hwritten', hwritten, List.append_assoc, List.drop_left, List.append_assoc] at hr
  constructor
  · intro hreads
    have hne : str ≠ [] := by
      rintro rfl
      exact hr.not_readsString_nil hreads
    obtain ⟨r', r'', hread, -⟩ := hreads
    rw [hr.readString (by omega) hne] at hread
    refine ⟨hne, ?_⟩
    have happend : str ++ dst = str := (Prod.mk.inj (Prod.mk.inj (Except.ok.inj hread)).2).1
    exact List.append_right_eq_self.mp happend
  · rintro ⟨hne, rfl⟩
    have hlen : str.length < 4294967296 := by omega
    have hpop := hr.popCount
    rw [← List.append_nil (encode fields)] at hpop
    obtain ⟨r'', hreads, -, -⟩ := (hpop.pop rfl).readFields
    refine ⟨_, r'', ?_, ?_, hreads⟩
    · rw [hr.readString hlen hne, List.append_nil]
    · have htotal := hr.length
      have hint := hr.int
      have hnonneg := hr.nonneg
      simp only [List.length_append, length_toLE] at htotal
      have hcount : int32 (r.nReadPos + 4) = r.nReadPos + 4 := int32_eq (by omega) (by omega)
      have hchars : int32 (str.length : ℤ) = str.length := int32_eq (by omega) (by omega)
      simp only [CELLStream.pop, hcount, hchars]
      rw [int32_eq (by omega) (by omega)]
      omega

/-- A reader over what a writer has written, at its beginning. -/
def CELLStream.atStart (u : CELLStream) : CELLStream :=
  ⟨u.written, u.written.length, u.written.length, 0, []⟩

theorem CELLStream.Writing.atStart_unread {cap : ℕ} {u : CELLStream} (hu : Writing cap u) :
    u.atStart.Unread u.written := by
  have hlen := hu.length_written
  have hle := hu.le
  have hint := hu.int
  refine ⟨le_refl _, le_refl _, Int.natCast_nonneg _, ?_, ?_⟩
  · simp only [atStart]
    omega
  · simp [atStart]

/-- A string and fields on a new write stream, and what is read of them at their place. -/
theorem exists_string_written (nSize : ℕ) (mem : ℕ → UInt8) (str : List UInt8)
    (fields : List Field) (hroom : 6 + str.length + (encode fields).length ≤ nSize)
    (hmax : nSize < 2147483648) : ∃ s t u r : CELLStream,
      CELLStream.newWrite nSize mem = .ok s ∧ CELLStream.Writing nSize s ∧
      4 + str.length ≤ s.room ∧ s.writeStdString str = .ok (true, t) ∧
      t.writeFields fields = .ok (true, u) ∧ r.Unread (u.written.drop s.written.length) := by
  obtain ⟨s, hnew, hs, hfirst, -⟩ :=
    CELLStream.exists_newWrite nSize mem (by omega) (by omega)
  rw [Int.toNat_natCast] at hs
  have hlen : s.written.length = 2 := by rw [hfirst]; rfl
  obtain ⟨t, ht⟩ := hs.writeArray_of_room (Nat.mul_one _).symm
    (show s.written.length + (4 + str.length) ≤ nSize by omega)
  obtain ⟨hwriting, hwritten⟩ := hs.writeArray (Nat.mul_one _).symm (by omega) ht
  obtain ⟨u, hu⟩ : ∃ u, t.writeFields fields = .ok (true, u) := by
    apply hwriting.writeFields_of_room
    rw [hwritten, List.length_append, List.length_append, length_toLE]
    omega
  obtain ⟨hwriting', hwritten'⟩ := hwriting.writeFields hu
  refine ⟨s, t, u, u.atStart.pop (int32 2), hnew, hs, ?_, ?_, hu, ?_⟩
  · rw [hs.room_eq, hlen]
    omega
  · rw [CELLStream.writeStdString, uint32_natCast (by omega), ht]
  · -- the reader has the two bytes of the length behind it
    have hstart := hwriting'.atStart_unread
    rw [hwritten', hwritten, List.append_assoc] at hstart ⊢
    rw [List.drop_left]
    exact hstart.pop hlen

/-- Strings do not round trip : the empty one on a new write stream is not read back. -/
theorem not_string_round_trip : ¬∀ (nSize : ℤ) (mem : ℕ → UInt8) (s t u r : CELLStream)
    (str dst : List UInt8) (fields : List Field), 2 ≤ nSize → nSize < 2147483648 →
    CELLStream.newWrite nSize mem = .ok s → 4 + str.length ≤ s.room →
    s.writeStdString str = .ok (true, t) → t.writeFields fields = .ok (true, u) →
    r.Unread (u.written.drop s.written.length) → r.ReadsString str dst fields := by
  intro hall
  obtain ⟨s, t, u, r, hnew, hs, hspace, ht, hu, hr⟩ :=
    exists_string_written 6 (fun _ => 0) [] [] (by decide) (by decide)
  have hreads := hall 6 _ s t u r [] [] [] (by decide) (by decide) hnew hspace ht hu hr
  obtain ⟨hwriting, hwritten⟩ := hs.writeStdString hspace ht
  rw [(hwriting.writeFields hu).2, hwritten, List.append_assoc, List.drop_left] at hr
  exact hr.not_readsString_nil hreads

/-- A string of two characters behind the length of a message is read back into an empty
string, and the number behind it is read. -/
theorem string_round_trip_iff_two : ∃ r : CELLStream,
    r.ReadsString [104, 105] [] [.scalar .four #v[1, 2, 3, 4]] := by
  obtain ⟨s, t, u, r, -, hs, hspace, ht, hu, hr⟩ := exists_string_written 12
    (fun _ => 0) [104, 105] [.scalar .four #v[1, 2, 3, 4]] (by decide) (by decide)
  exact ⟨r, (string_round_trip_iff hs hspace ht hu hr).mpr ⟨by decide, rfl⟩⟩

end CellNet
