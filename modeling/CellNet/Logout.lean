import CellNet.LenientRead
import CellNet.NetEvent
import CellNet.StreamWrites

/-!
# The answer to a logout

The server program reads eight fields from a `CMD_LOGOUT` message and writes them into a
stream of 128 bytes, and looks at the result of no read and no write. A `Logout` is what
its variables hold in between : `takeLogout` says what the reads make of any message,
`Logout.reply` what the writes make of it, and `onLogout_eq` that the handler queues this
reply, whatever lies behind the message and whatever the memory held.

* `logout_robust` : from any message the handler makes one frame, and nothing undefined
  happens on the way.
* `logout_echoed_iff` : a well formed request is echoed exactly when its arrays have at
  most 93 bytes. Up to 104 are accepted, and where they do not fit the last array is left
  out.
-/

namespace CellNet

/-- The eight fields, with as many elements as the handler has room for. -/
structure Logout where
  n1 : Vector UInt8 Width.one.bytes
  n2 : Vector UInt8 Width.two.bytes
  n3 : Vector UInt8 Width.four.bytes
  n4 : Vector UInt8 Width.four.bytes
  n5 : Vector UInt8 Width.eight.bytes
  name : List (Vector UInt8 Width.one.bytes)
  pw : List (Vector UInt8 Width.one.bytes)
  ata : List (Vector UInt8 Width.four.bytes)
  name_le : name.length ≤ 32
  pw_le : pw.length ≤ 32
  ata_le : ata.length ≤ 10

namespace Logout

variable (l : Logout)

/-- All fields but the last. -/
def firstFields : List Field :=
  [.scalar .one l.n1, .scalar .two l.n2, .scalar .four l.n3, .scalar .four l.n4,
    .scalar .eight l.n5, .array .one l.name (by have := l.name_le; omega),
    .array .one l.pw (by have := l.pw_le; omega)]

/-- `ata`, the last field. -/
def lastField : Field :=
  .array .four l.ata (by have := l.ata_le; omega)

/-- The fields of the message. -/
def fields : List Field :=
  l.firstFields ++ [l.lastField]

/-- The arrays have at most 93 bytes. -/
def Fits : Prop :=
  l.name.length + l.pw.length + 4 * l.ata.length ≤ 93

instance : Decidable l.Fits :=
  inferInstanceAs (Decidable (_ ≤ _))

/-- The fields the reply has. -/
def replyFields : List Field :=
  if l.Fits then l.fields else l.firstFields

/-- The reply. -/
def reply : List UInt8 :=
  toLE 2 (4 + (encode l.replyFields).length) ++
    (toLE 2 CMD.logoutResult.code ++ encode l.replyFields)

/-- The line logged while it is written. -/
def replyLog : List LogCall :=
  if l.Fits then [] else [.streamWriteArrayFailed]

@[simp] theorem length_encode_firstFields :
    (encode l.firstFields).length = 27 + l.name.length + l.pw.length := by
  simp only [firstFields, encode_cons, encode_nil, Field.encode, List.length_append,
    List.length_nil, length_toLE, length_elements, Vector.length_toList]
  simp only [Width.bytes]
  omega

@[simp] theorem length_encode_lastField : l.lastField.encode.length = 4 + 4 * l.ata.length := by
  simp only [lastField, Field.encode, List.length_append, length_toLE, length_elements]
  simp only [Width.bytes]
  omega

theorem encode_fields : encode l.fields = encode l.firstFields ++ l.lastField.encode := by
  simp [fields, encode]

@[simp] theorem length_encode_fields : (encode l.fields).length =
    31 + l.name.length + l.pw.length + 4 * l.ata.length := by
  rw [encode_fields, List.length_append, length_encode_firstFields, length_encode_lastField]
  omega

theorem length_encode_replyFields : (encode l.replyFields).length ≤ 124 := by
  have := l.name_le
  have := l.pw_le
  unfold replyFields
  split
  · rename_i hfits
    unfold Fits at hfits
    rw [length_encode_fields]
    omega
  · rw [length_encode_firstFields]
    omega

theorem length_reply : l.reply.length = 4 + (encode l.replyFields).length := by
  simp only [reply, List.length_append, length_toLE]
  omega

/-- The reply is a frame with the command `CMD_LOGOUT_RESULT`. -/
theorem header_reply : headerLen l.reply = l.reply.length ∧
    cmd l.reply = .ok CMD.logoutResult.code := by
  have hle := l.length_encode_replyFields
  have hlen := l.length_reply
  have hreply : l.reply = dataHeaderBytes l.reply.length .logoutResult ++ encode l.replyFields := by
    rw [hlen, reply, dataHeaderBytes, List.append_assoc]
  obtain ⟨hhead, -, hcmd⟩ := header_of_eq (by omega) .logoutResult hreply rfl
  have hcmd' := hcmd []
  rw [List.append_nil] at hcmd'
  exact ⟨hhead, hcmd'⟩

end Logout

/-! ## The reads -/

/-- What the reads of the handler make of a message. -/
def takeLogout (m : List UInt8) : Taken Logout :=
  (takeScalar .two m).bind fun _ m =>
  (takeScalar .two m).bind fun _ m =>
  (takeScalar .one m).bind fun n1 m =>
  (takeScalar .two m).bind fun n2 m =>
  (takeScalar .four m).bind fun n3 m =>
  (takeScalar .four m).bind fun n4 m =>
  (takeScalar .eight m).bind fun n5 m =>
  (peekCount m).bind fun _ m =>
  (takeArray .one 32 m).bind fun name m =>
  (takeArray .one 32 m).bind fun pw m =>
  (takeArray .four 10 m).bind fun ata m =>
  ⟨⟨n1, n2, n3, n4, n5, name.1, pw.1, ata.1, name.2, pw.2, ata.2⟩, m, []⟩

/-- A well formed message gives its fields. -/
theorem takeLogout_encode {x y : List UInt8} (hx : x.length = 2) (hy : y.length = 2)
    (l : Logout) : takeLogout (x ++ (y ++ encode l.fields)) = ⟨l, [], []⟩ := by
  obtain ⟨x, rfl⟩ : ∃ v : Vector UInt8 Width.two.bytes, v.toList = x := ⟨⟨x.toArray, hx⟩, rfl⟩
  obtain ⟨y, rfl⟩ : ∃ v : Vector UInt8 Width.two.bytes, v.toList = y := ⟨⟨y.toArray, hy⟩, rfl⟩
  have hfields : encode l.fields = l.n1.toList ++ (l.n2.toList ++ (l.n3.toList ++ (l.n4.toList ++
      (l.n5.toList ++ (toLE 4 l.name.length ++ elements l.name ++ (toLE 4 l.pw.length ++
        elements l.pw ++ (toLE 4 l.ata.length ++ elements l.ata ++ []))))))) := by
    simp [Logout.fields, Logout.firstFields, Logout.lastField, Field.encode]
  have := l.name_le
  have := l.pw_le
  have := l.ata_le
  simp only [hfields, takeLogout, takeScalar_append, Taken.mk_bind]
  rw [peekCount, if_pos (by simp), Taken.mk_bind, takeArray_append l.name_le (by omega),
    Taken.mk_bind, takeArray_append l.pw_le (by omega), Taken.mk_bind,
    takeArray_append l.ata_le (by omega), Taken.mk_bind]
  rfl

namespace CELLStream

/-- The reads of the handler on `r` return the fields of `l`, the arrays in front of what
the blocks held, and leave the stream `t`. -/
def ReadsLogout (r : CELLStream) (l : Logout) (t : CELLStream) : Prop :=
  ∃ x r₁ y r₂ r₃ r₄ r₅ r₆ r₇ z r₈ r₉ r₁₀,
    r.readInt16 = .ok (x, r₁) ∧ r₁.getNetCmd = .ok (y, r₂) ∧
    r₂.readInt8 = .ok (l.n1.toList, r₃) ∧ r₃.readInt16 = .ok (l.n2.toList, r₄) ∧
    r₄.readInt32 = .ok (l.n3.toList, r₅) ∧ r₅.readFloat = .ok (l.n4.toList, r₆) ∧
    r₆.readDouble = .ok (l.n5.toList, r₇) ∧ r₇.onlyRead 4 = .ok (z, r₈) ∧
    r₈.readArray 1 (List.replicate 32 0) 32 = .ok (l.name.length,
      elements l.name ++ (List.replicate 32 0).drop (elements l.name).length, r₉) ∧
    r₉.readArray 1 (List.replicate 32 0) 32 = .ok (l.pw.length,
      elements l.pw ++ (List.replicate 32 0).drop (elements l.pw).length, r₁₀) ∧
    r₁₀.readArray 4 (List.replicate 40 0) 10 = .ok (l.ata.length,
      elements l.ata ++ (List.replicate 40 0).drop (elements l.ata).length, t)

variable {r w w' : CELLStream} {m : List UInt8} {mem : ℕ → UInt8} {l : Logout}

theorem Unread.readsLogout (hr : r.Unread m) :
    ∃ t, r.ReadsLogout (takeLogout m).value t ∧ t.log = r.log ++ (takeLogout m).log := by
  obtain ⟨x, m₁, log₁, r₁, hx, h₁, hr₁, hlog₁⟩ := hr.lenientScalar .two
  obtain ⟨y, m₂, log₂, c, r₂, hy, h₂, hr₂, hlog₂⟩ := hr₁.lenientCmd
  obtain ⟨n1, m₃, log₃, r₃, hn1, h₃, hr₃, hlog₃⟩ := hr₂.lenientScalar .one
  obtain ⟨n2, m₄, log₄, r₄, hn2, h₄, hr₄, hlog₄⟩ := hr₃.lenientScalar .two
  obtain ⟨n3, m₅, log₅, r₅, hn3, h₅, hr₅, hlog₅⟩ := hr₄.lenientScalar .four
  obtain ⟨n4, m₆, log₆, r₆, hn4, h₆, hr₆, hlog₆⟩ := hr₅.lenientScalar .four
  obtain ⟨n5, m₇, log₇, r₇, hn5, h₇, hr₇, hlog₇⟩ := hr₆.lenientScalar .eight
  obtain ⟨n, log₈, z, r₈, hn, h₈, -, hr₈, hlog₈⟩ := hr₇.lenientCount
  obtain ⟨name, m₉, log₉, r₉, hname, h₉, hr₉, hlog₉⟩ :=
    hr₈.lenientArray .one 32 (List.replicate 32 0) (by decide) (by decide)
  obtain ⟨pw, m₁₀, log₁₀, r₁₀, hpw, h₁₀, hr₁₀, hlog₁₀⟩ :=
    hr₉.lenientArray .one 32 (List.replicate 32 0) (by decide) (by decide)
  obtain ⟨ata, m₁₁, log₁₁, t, hata, h₁₁, -, hlog₁₁⟩ :=
    hr₁₀.lenientArray .four 10 (List.replicate 40 0) (by decide) (by decide)
  simp only [takeLogout, hx, hy, hn1, hn2, hn3, hn4, hn5, hn, hname, hpw, hata, Taken.mk_bind]
  refine ⟨t, ⟨_, r₁, c, r₂, r₃, r₄, r₅, r₆, r₇, z, r₈, r₉, r₁₀, h₁, h₂, h₃, h₄, h₅, h₆, h₇, h₈,
    h₉, h₁₀, h₁₁⟩, ?_⟩
  rw [hlog₁₁, hlog₁₀, hlog₉, hlog₈, hlog₇, hlog₆, hlog₅, hlog₄, hlog₃, hlog₂, hlog₁]
  simp only [List.append_assoc, List.append_nil]

/-! ## The writes -/

/-- The writes of the handler of the fields of `l`, the arrays in blocks with more behind
them, leave the stream `w`. -/
def WritesLogout (mem : ℕ → UInt8) (l : Logout) (w : CELLStream) : Prop :=
  ∃ w₀ w₁ ok₂ w₂ ok₃ w₃ ok₄ w₄ ok₅ w₅ ok₆ w₆ ok₇ w₇ ok₈ w₈ ok₉ w₉,
    newWrite 128 mem = .ok w₀ ∧ w₀.setNetCmd CMD.logoutResult.code = .ok w₁ ∧
    w₁.write l.n1.toList = .ok (ok₂, w₂) ∧ w₂.write l.n2.toList = .ok (ok₃, w₃) ∧
    w₃.write l.n3.toList = .ok (ok₄, w₄) ∧ w₄.write l.n4.toList = .ok (ok₅, w₅) ∧
    w₅.write l.n5.toList = .ok (ok₆, w₆) ∧
    (∀ bs, w₆.writeArray 1 (elements l.name ++ bs) l.name.length = .ok (ok₇, w₇)) ∧
    (∀ bs, w₇.writeArray 1 (elements l.pw ++ bs) l.pw.length = .ok (ok₈, w₈)) ∧
    (∀ bs, w₈.writeArray 4 (elements l.ata ++ bs) l.ata.length = .ok (ok₉, w₉)) ∧
    w₉.finsh = .ok w

/-- A field of the message is written like its bytes with more behind them. -/
theorem writeField_array {s t : CELLStream} {w : Width} {vs : List (Vector UInt8 w.bytes)}
    {hlen : vs.length < 4294967296} {ok : Bool}
    (h : s.writeField (.array w vs hlen) = .ok (ok, t)) (bs : List UInt8) :
    s.writeArray w.bytes (elements vs ++ bs) vs.length = .ok (ok, t) := by
  rw [writeArray_take (by simp) (Field.elements_lt hlen), List.take_left' (length_elements vs)]
  exact h

/-- Behind the other fields the last one is written if it fits. -/
theorem Writing.writeLast {w₈ : CELLStream} (hw₈ : Writing 128 w₈)
    (hwritten : w₈.written = toLE 2 0 ++ toLE 2 CMD.logoutResult.code ++ encode l.firstFields)
    (hlog : w₈.log = []) : ∃ ok w₉, w₈.writeField l.lastField = .ok (ok, w₉) ∧ Writing 128 w₉ ∧
      w₉.written = toLE 2 0 ++ toLE 2 CMD.logoutResult.code ++ encode l.replyFields ∧
      w₉.log = l.replyLog := by
  have hlen : w₈.written.length = 31 + l.name.length + l.pw.length := by
    simp only [hwritten, List.length_append, length_toLE, l.length_encode_firstFields]
    omega
  have hlast := l.length_encode_lastField
  have hata := l.ata_le
  unfold Logout.replyFields Logout.replyLog
  by_cases hfits : l.Fits
  · have hroom : w₈.written.length + l.lastField.encode.length ≤ 128 := by
      unfold Logout.Fits at hfits
      omega
    obtain ⟨w₉, h₉⟩ : ∃ w₉, w₈.writeField l.lastField = .ok (true, w₉) :=
      hw₈.writeArray_of_room (length_elements l.ata) (by
        simp only [Logout.lastField, Field.encode, List.length_append, length_toLE] at hroom
        omega)
    obtain ⟨hw₉, hwritten₉⟩ := hw₈.writeField h₉
    rw [if_pos hfits, if_pos hfits]
    refine ⟨true, w₉, h₉, hw₉, ?_, ?_⟩
    · rw [hwritten₉, hwritten, l.encode_fields, List.append_assoc]
    · rw [hw₈.writeField_log hroom h₉, hlog]
  · rw [if_neg hfits, if_neg hfits]
    refine ⟨false, w₈.logged .streamWriteArrayFailed, ?_, ?_, hwritten, ?_⟩
    · refine writeArray_refused (Field.elements_lt (by omega)) ?_
      have hroom := hw₈.room_eq
      unfold Logout.Fits at hfits
      rw [show l.ata.length * Width.four.bytes = l.ata.length * 4 from rfl, hw₈.canWrite_iff,
        sizeTOf_eq (by omega), int32_eq (by omega) (by omega)]
      omega
    · exact ⟨hw₈.size, hw₈.block, hw₈.nonneg, hw₈.le, hw₈.int⟩
    · rw [logged, hlog]
      rfl

theorem exists_writesLogout (mem : ℕ → UInt8) (l : Logout) : ∃ w, WritesLogout mem l w ∧
    Writing 128 w ∧ w.written = l.reply ∧ w.length = l.reply.length ∧ w.log = l.replyLog := by
  have := l.name_le
  have := l.pw_le
  obtain ⟨w₀, w₁, w₈, h₀, hroom, h₁, hfirst, hlog₈⟩ := exists_written 128 mem
    CMD.logoutResult.code l.firstFields (by rw [l.length_encode_firstFields]; omega) (by decide)
  obtain ⟨hw₁, hwritten₁⟩ := Writing.new (by decide) (by decide) h₀ hroom h₁
  obtain ⟨hw₈, hwritten₈⟩ := hw₁.writeFields hfirst
  rw [hwritten₁] at hwritten₈
  obtain ⟨ok, w₉, h₉, hw₉, hwritten₉, hlog₉⟩ := hw₈.writeLast hwritten₈ hlog₈
  have hlen₉ := hw₉.length_written
  have hlen : w₉.written.length = 4 + (encode l.replyFields).length := by
    simp only [hwritten₉, List.length_append, length_toLE]
  have hle := l.length_encode_replyFields
  obtain ⟨w, hfin, hw, hwritten, hlength, hlog⟩ := hw₉.finsh (by omega)
  rw [Logout.firstFields] at hfirst
  obtain ⟨w₂, h₂, hfirst⟩ := writeFields_cons hfirst
  obtain ⟨w₃, h₃, hfirst⟩ := writeFields_cons hfirst
  obtain ⟨w₄, h₄, hfirst⟩ := writeFields_cons hfirst
  obtain ⟨w₅, h₅, hfirst⟩ := writeFields_cons hfirst
  obtain ⟨w₆, h₆, hfirst⟩ := writeFields_cons hfirst
  obtain ⟨w₇, h₇, hfirst⟩ := writeFields_cons hfirst
  obtain ⟨w₈', h₈, hfirst⟩ := writeFields_cons hfirst
  obtain rfl : w₈' = w₈ := (Prod.mk.inj (Except.ok.inj hfirst)).2
  have hname := writeField_array h₇
  have hpw := writeField_array h₈
  have hata := writeField_array h₉
  refine ⟨w, ⟨w₀, w₁, true, w₂, true, w₃, true, w₄, true, w₅, true, w₆, true, w₇, true, w₈', ok,
    w₉, h₀, h₁, h₂, h₃, h₄, h₅, h₆, hname, hpw, hata, hfin⟩, hw, ?_, ?_, hlog.trans hlog₉⟩
  · rw [hwritten, hlen, Nat.mod_eq_of_lt (by omega), hwritten₉, List.append_assoc,
      List.drop_left' (length_toLE 2 0), Logout.reply]
  · rw [hlength, CELLStream.length, ← hlen₉, hlen, l.length_reply]

end CELLStream

/-! ## The handler -/

/-- The lines the handler logs. -/
def logoutLog (m : List UInt8) : List LogCall :=
  (takeLogout m).log ++ (takeLogout m).value.replyLog

/-- The handler queues the reply, whatever lies behind the message. -/
theorem MyServer.onLogout_eq {m : List UInt8} (h4 : 4 ≤ m.length) (hm : headerLen m = m.length)
    (s : MyServer) (c : CELLClient) (rest : List UInt8) (mem : ℕ → UInt8) :
    s.onLogout c (m ++ rest) mem = (do
      let reply := (takeLogout m).value.reply
      let (_, c) ← c.resetDTHeart.sendData reply reply.length
      return ({ s with log := s.log ++ logoutLog m }, c)) := by
  have hlt := headerLen_lt m
  have hheader : CELLStream.ofHeader (m ++ rest) =
      .ok ⟨m ++ rest, m.length, m.length, 0, []⟩ := by
    rw [CELLStream.ofHeader, dataLength_eq (by rw [List.length_append]; omega),
      headerLen_append (by omega), hm]
    rfl
  have hr : CELLStream.Unread ⟨m ++ rest, m.length, m.length, 0, []⟩ m := by
    refine ⟨?_, le_refl _, Int.natCast_nonneg _, ?_, ?_⟩
    · simp
    · simp only
      omega
    · simp
  obtain ⟨r, hreads, hlog⟩ := hr.readsLogout
  rw [List.nil_append] at hlog
  dsimp only [logoutLog]
  generalize (takeLogout m).value = l at hreads ⊢
  obtain ⟨w, hwrites, hw, hwritten, hlength, hlogw⟩ := CELLStream.exists_writesLogout mem l
  have hpos : w.nWritePos.toNat = l.reply.length := by
    rw [show w.nWritePos = l.reply.length from hlength, Int.toNat_natCast]
  have htake : w.data.take l.reply.length = l.reply := by
    rw [← hpos]
    exact hwritten
  have hsend : c.resetDTHeart.sendData w.data w.length =
      c.resetDTHeart.sendData l.reply l.reply.length := by
    have hle : l.reply.length ≤ w.data.length := by
      rw [← htake, List.length_take]
      exact Nat.min_le_right _ _
    rw [hlength, CELLClient.sendData_take _ hle, htake]
  obtain ⟨x, r₁, y, r₂, r₃, r₄, r₅, r₆, r₇, z, r₈, r₉, r₁₀, h₁, h₂, h₃, h₄, h₅, h₆, h₇, h₈, h₉, h₁₀,
    h₁₁⟩ := hreads
  obtain ⟨w₀, w₁, ok₂, w₂, ok₃, w₃, ok₄, w₄, ok₅, w₅, ok₆, w₆, ok₇, w₇, ok₈, w₈, ok₉, w₉, k₀, k₁,
    k₂, k₃, k₄, k₅, k₆, k₇, k₈, k₉, k₁₀⟩ := hwrites
  rw [onLogout, hheader, Fallible.ok_bind]
  -- what the blocks hold plays no part
  generalize CELLStream.newWrite 128 mem = block at k₀ ⊢
  generalize List.replicate 32 (0 : UInt8) = chars at h₉ h₁₀ ⊢
  generalize List.replicate 40 (0 : UInt8) = ints at h₁₁ ⊢
  simp only [h₁, h₂, h₃, h₄, h₅, h₆, h₇, h₈, h₉, h₁₀, h₁₁, k₀, k₁, k₂, k₃, k₄, k₅, k₆, k₇, k₈, k₉,
    k₁₀, Fallible.ok_bind, hsend, hlog, hlogw, List.append_assoc]

theorem MyServer.onNetMsg_logout {m : List UInt8} (h4 : 4 ≤ m.length)
    (hm : headerLen m = m.length) (hcmd : cmd m = .ok CMD.logout.code) (s : MyServer)
    (c : CELLClient) (rest : List UInt8) (mem : ℕ → UInt8) :
    s.onNetMsg c (m ++ rest) mem = (do
      let reply := (takeLogout m).value.reply
      let (_, c) ← c.resetDTHeart.sendData reply reply.length
      return ({ s with counts := s.counts.onNetMsg, log := s.log ++ logoutLog m }, c)) := by
  rw [onNetMsg, cmd_append h4, hcmd, Fallible.ok_bind, CMD.ofCode_code]
  exact onLogout_eq h4 hm _ c rest mem

/-- The handler of a logout is robust. From any message, whatever its fields, its element
counts and its length, and whatever lies behind it in the block, it makes one reply and
queues it, and reads or writes nothing outside the message and its own blocks. The reply is
a frame of at most 128 bytes with the command `CMD_LOGOUT_RESULT`. -/
theorem logout_robust {m : List UInt8} (h4 : 4 ≤ m.length) (hm : headerLen m = m.length)
    (hcmd : cmd m = .ok CMD.logout.code) : ∃ (reply : List UInt8) (log : List LogCall),
      (headerLen reply = reply.length ∧ 4 ≤ reply.length ∧ reply.length ≤ 128 ∧
        cmd reply = .ok CMD.logoutResult.code) ∧
      ∀ (s : MyServer) (c : CELLClient) (rest : List UInt8) (mem : ℕ → UInt8),
        s.onNetMsg c (m ++ rest) mem = (do
          let (_, c) ← c.resetDTHeart.sendData reply reply.length
          return ({ s with counts := s.counts.onNetMsg, log := s.log ++ log }, c)) := by
  obtain ⟨hhead, hresult⟩ := (takeLogout m).value.header_reply
  have hlen := (takeLogout m).value.length_reply
  have hle := (takeLogout m).value.length_encode_replyFields
  exact ⟨_, _, ⟨hhead, by omega, by omega, hresult⟩, MyServer.onNetMsg_logout h4 hm hcmd⟩

/-- A message of the header and one more byte. -/
theorem logout_robust_short : ∃ (reply : List UInt8) (log : List LogCall),
    4 ≤ reply.length ∧ ∀ (s : MyServer) (c : CELLClient) (mem : ℕ → UInt8),
      s.onNetMsg c [5, 0, 12, 0, 7] mem = (do
        let (_, c) ← c.resetDTHeart.sendData reply reply.length
        return ({ s with counts := s.counts.onNetMsg, log := s.log ++ log }, c)) := by
  obtain ⟨reply, log, ⟨-, h4, -⟩, hrun⟩ :=
    logout_robust (m := [5, 0, 12, 0, 7]) (by decide) (by decide) (by rfl)
  exact ⟨reply, log, h4, fun s c mem => hrun s c [] mem⟩

/-! ## The echo -/

/-- A reader over `reply` returns its length, the command and the fields of the request. -/
def Echoes (reply : List UInt8) (l : Logout) : Prop :=
  ∃ r₀ r₁ r₂ r, CELLStream.ofHeader reply = .ok r₀ ∧
    r₀.readUInt16 = .ok (toLE 2 reply.length, r₁) ∧
    r₁.getNetCmd = .ok (CMD.logoutResult.code, r₂) ∧ r₂.ReadsFields l.fields r

namespace CELLStream

variable {s t t' u : CELLStream} {f : Field} {fields : List Field}

/-- A field is read into one stream. -/
theorem ReadsField.unique (h : s.ReadsField f t) (h' : s.ReadsField f t') : t = t' := by
  cases f with
  | scalar w v => exact (Prod.mk.inj (Except.ok.inj (h.symm.trans h'))).2
  | array w vs hlen =>
    have hr := h (List.replicate (vs.length * w.bytes) 0) vs.length (le_refl _) (by simp)
    have hr' := h' (List.replicate (vs.length * w.bytes) 0) vs.length (le_refl _) (by simp)
    exact (Prod.mk.inj (Prod.mk.inj (Except.ok.inj (hr.symm.trans hr'))).2).2

theorem ReadsFields.append (h : s.ReadsFields fields u) {fields' : List Field} :
    s.ReadsFields (fields ++ fields') t ↔ u.ReadsFields fields' t := by
  induction fields generalizing s with
  | nil =>
    obtain rfl : s = u := h
    exact Iff.rfl
  | cons f fields ih =>
    obtain ⟨v, hf, hfs⟩ := h
    constructor
    · rintro ⟨v', hf', hfs'⟩
      obtain rfl := hf.unique hf'
      exact (ih hfs).mp hfs'
    · exact fun hfs' => ⟨v, hf, (ih hfs).mpr hfs'⟩

/-- From nothing no array is read but an empty one. -/
theorem Unread.not_readsField (hs : s.Unread []) {w : Width} {vs : List (Vector UInt8 w.bytes)}
    {hlen : vs.length < 4294967296} (hsmall : vs.length * w.bytes + 4 < 2147483648)
    (hne : vs ≠ []) : ¬s.ReadsField (.array w vs hlen) t := by
  intro h
  have hr := h (List.replicate (vs.length * w.bytes) 0) vs.length (le_refl _) (by simp)
  obtain ⟨vs', rest', log, t', htake, hread, -⟩ := hs.lenientArray w vs.length
    (List.replicate (vs.length * w.bytes) 0) hsmall (by simp)
  rw [takeArray, dif_neg (by simp)] at htake
  obtain rfl := congrArg Taken.value htake
  have hcount : vs.length = 0 := (Prod.mk.inj (Except.ok.inj (hr.symm.trans hread))).1
  exact hne (List.length_eq_zero_iff.mp hcount)

end CELLStream

/-- A reader over the reply, up to the fields. -/
theorem Logout.reads_reply (l : Logout) : ∃ r₀ r₁ r₂, CELLStream.ofHeader l.reply = .ok r₀ ∧
    r₀.readUInt16 = .ok (toLE 2 l.reply.length, r₁) ∧
    r₁.getNetCmd = .ok (CMD.logoutResult.code, r₂) ∧ r₂.Unread (encode l.replyFields) := by
  have hle := l.length_encode_replyFields
  have hlen := l.length_reply
  have hreply : l.reply = toLE 2 l.reply.length ++
      (toLE 2 CMD.logoutResult.code ++ encode l.replyFields) := by
    rw [hlen, reply]
  have hr₀ : CELLStream.Unread ⟨l.reply, l.reply.length, l.reply.length, 0, []⟩
      (toLE 2 l.reply.length ++ (toLE 2 CMD.logoutResult.code ++ encode l.replyFields)) := by
    rw [← hreply]
    refine ⟨le_refl _, le_refl _, Int.natCast_nonneg _, ?_, by simp⟩
    simp only
    omega
  have hheader : CELLStream.ofHeader l.reply =
      .ok ⟨l.reply, l.reply.length, l.reply.length, 0, []⟩ := by
    rw [CELLStream.ofHeader, dataLength_eq (by omega), l.header_reply.1]
    rfl
  generalize (⟨l.reply, l.reply.length, l.reply.length, 0, []⟩ : CELLStream) = r₀ at hheader hr₀
  have hr₁ := hr₀.pop (length_toLE 2 _)
  refine ⟨r₀, r₀.pop (int32 (2 : ℕ)), (r₀.pop (int32 (2 : ℕ))).pop (int32 (2 : ℕ)), hheader, ?_,
    ?_, hr₁.pop (length_toLE 2 _)⟩
  · rw [CELLStream.readUInt16, CELLStream.readScalar, hr₀.read (length_toLE 2 _) true]
    rfl
  · rw [CELLStream.getNetCmd, hr₁.read (length_toLE 2 _) true]
    rfl

/-- The reply to a request echoes it if all fields fit, and then only. -/
theorem Logout.echoes_reply_iff (l : Logout) : Echoes l.reply l ↔ l.Fits := by
  obtain ⟨r₀, r₁, r₂, hheader, hlength, hcmd, hr₂⟩ := l.reads_reply
  rw [← List.append_nil (encode l.replyFields)] at hr₂
  obtain ⟨u, hreads, hu, -⟩ := hr₂.readFields
  constructor
  · rintro ⟨s₀, s₁, s₂, r, hheader', hlength', hcmd', hfields⟩
    obtain rfl := Except.ok.inj (hheader.symm.trans hheader')
    obtain rfl := (Prod.mk.inj (Except.ok.inj (hlength.symm.trans hlength'))).2
    obtain rfl := (Prod.mk.inj (Except.ok.inj (hcmd.symm.trans hcmd'))).2
    by_contra hfits
    rw [replyFields, if_neg hfits] at hreads
    obtain ⟨v, hlast, -⟩ := hreads.append.mp hfields
    have hata := l.ata_le
    refine hu.not_readsField ?_ ?_ hlast
    · rw [show l.ata.length * Width.four.bytes = l.ata.length * 4 from rfl]
      omega
    · intro hnil
      have hname := l.name_le
      have hpw := l.pw_le
      rw [Fits, hnil, List.length_nil] at hfits
      omega
  · intro hfits
    rw [replyFields, if_pos hfits] at hreads
    exact ⟨r₀, r₁, r₂, u, hheader, hlength, hcmd, hreads⟩

/-- What a request is on the wire. -/
theorem Logout.data_request {nSize : ℤ} {mem : ℕ → UInt8} {l : Logout}
    {w₀ w₁ w₂ w : CELLStream} (hmin : -2147483648 ≤ nSize) (hmax : nSize < 2147483648)
    (hnew : CELLStream.newWrite nSize mem = .ok w₀) (hroom : w₀.canWrite 2 = true)
    (hset : w₀.setNetCmd CMD.logout.code = .ok w₁)
    (hwrite : w₁.writeFields l.fields = .ok (true, w₂)) (hfin : w₂.finsh = .ok w) :
    w.data.take w.length.toNat = toLE 2 (4 + (encode l.fields).length) ++
      (toLE 2 CMD.logout.code ++ encode l.fields) := by
  have hname := l.name_le
  have hpw := l.pw_le
  have hata := l.ata_le
  have hfields := l.length_encode_fields
  obtain ⟨w', hfin', hw, -, hlength, hwritten⟩ :=
    CELLStream.finished hmin hmax hnew hroom hset hwrite
  obtain rfl := Except.ok.inj (hfin.symm.trans hfin')
  rwa [Nat.mod_eq_of_lt (by omega)] at hwritten

/-- The reply is not longer than the request. -/
theorem Logout.length_reply_le (l : Logout) : l.reply.length ≤ 4 + (encode l.fields).length := by
  rw [l.length_reply]
  unfold Logout.replyFields
  split
  · exact le_refl _
  · rw [l.length_encode_firstFields, l.length_encode_fields]
    omega

/-- The handler queues the reply to the fields a request was built with. -/
theorem MyServer.onNetMsg_request {nSize : ℤ} {mem : ℕ → UInt8} {l : Logout}
    {w₀ w₁ w₂ w : CELLStream} (hmin : -2147483648 ≤ nSize) (hmax : nSize < 2147483648)
    (hnew : CELLStream.newWrite nSize mem = .ok w₀) (hroom : w₀.canWrite 2 = true)
    (hset : w₀.setNetCmd CMD.logout.code = .ok w₁)
    (hwrite : w₁.writeFields l.fields = .ok (true, w₂)) (hfin : w₂.finsh = .ok w)
    {c : CELLClient} (hc : c.sendBuff.WF)
    (hfree : c.sendBuff.bytes.length + (4 + (encode l.fields).length) ≤ c.sendBuff.nSize)
    (s : MyServer) (rest : List UInt8) (mem' : ℕ → UInt8) : ∃ s' c',
      s.onNetMsg c (w.data.take w.length.toNat ++ rest) mem' = .ok (s', c') ∧
      c'.sendBuff.bytes = c.sendBuff.bytes ++ l.reply := by
  have hname := l.name_le
  have hpw := l.pw_le
  have hata := l.ata_le
  have hfields := l.length_encode_fields
  -- the request is a frame with the fields of `l`
  have hframe := Logout.data_request hmin hmax hnew hroom hset hwrite hfin
  have hlen : (w.data.take w.length.toNat).length = 4 + (encode l.fields).length := by
    simp only [hframe, List.length_append, length_toLE]
    omega
  have hheader : w.data.take w.length.toNat =
      dataHeaderBytes (4 + (encode l.fields).length) .logout ++ encode l.fields := by
    rw [hframe, dataHeaderBytes, List.append_assoc]
  obtain ⟨hhead, -, hcmd⟩ := header_of_eq (by omega) .logout hheader hlen
  have hcmd' := hcmd []
  rw [List.append_nil] at hcmd'
  have htake : takeLogout (w.data.take w.length.toNat) = ⟨l, [], []⟩ := by
    rw [hframe]
    exact takeLogout_encode (length_toLE 2 _) (length_toLE 2 _) l
  have hreply := l.length_reply_le
  have hlast := hc.length_bytes
  have hfits : c.sendBuff.nLast + (l.reply.length : ℤ) ≤ c.sendBuff.nSize := by omega
  obtain ⟨b, hpush, -, -, hbytes⟩ :=
    hc.push_of_fits (Int.natCast_nonneg _) (le_refl (l.reply.length : ℤ)) hfits
  rw [Int.toNat_natCast, List.take_length] at hbytes
  have hsend : c.resetDTHeart.sendData l.reply l.reply.length =
      .ok (l.reply.length, { c.resetDTHeart with sendBuff := b }) := by
    rw [CELLClient.sendData, CELLClient.resetDTHeart, hpush]
    rfl
  have hrun := MyServer.onNetMsg_logout (by omega) (by omega) hcmd' s c rest mem'
  rw [htake] at hrun
  simp only [hsend, Fallible.ok_bind] at hrun
  exact ⟨_, _, hrun, hbytes⟩

/-- When a logout request is echoed. Whatever the values and the lengths of the arrays, the
capacity of the stream the request was built in, and what lies behind it where it is
received, if the send buffer has room for all fields, then the handler queues one reply,
and this has all fields, each with its value, exactly when the arrays have at most 93
bytes. -/
theorem logout_echoed_iff {nSize : ℤ} {mem : ℕ → UInt8} {l : Logout} {w₀ w₁ w₂ w : CELLStream}
    (hmin : -2147483648 ≤ nSize) (hmax : nSize < 2147483648)
    (hnew : CELLStream.newWrite nSize mem = .ok w₀) (hroom : w₀.canWrite 2 = true)
    (hset : w₀.setNetCmd CMD.logout.code = .ok w₁)
    (hwrite : w₁.writeFields l.fields = .ok (true, w₂)) (hfin : w₂.finsh = .ok w)
    {c : CELLClient} (hc : c.sendBuff.WF)
    (hfree : c.sendBuff.bytes.length + (4 + (encode l.fields).length) ≤ c.sendBuff.nSize)
    (s : MyServer) (rest : List UInt8) (mem' : ℕ → UInt8) : ∃ s' c' reply,
      s.onNetMsg c (w.data.take w.length.toNat ++ rest) mem' = .ok (s', c') ∧
      c'.sendBuff.bytes = c.sendBuff.bytes ++ reply ∧
      (Echoes reply l ↔ l.name.length + l.pw.length + 4 * l.ata.length ≤ 93) := by
  obtain ⟨s', c', hrun, hbytes⟩ := MyServer.onNetMsg_request hmin hmax hnew hroom hset hwrite hfin
    hc hfree s rest mem'
  exact ⟨s', c', l.reply, hrun, hbytes, l.echoes_reply_iff⟩

/-- A request built in a stream of 200 bytes. -/
theorem exists_logout_request (l : Logout) : ∃ w₀ w₁ w₂ w,
    CELLStream.newWrite 200 (fun _ => 0) = .ok w₀ ∧ w₀.canWrite 2 = true ∧
    w₀.setNetCmd CMD.logout.code = .ok w₁ ∧ w₁.writeFields l.fields = .ok (true, w₂) ∧
    w₂.finsh = .ok w := by
  have hname := l.name_le
  have hpw := l.pw_le
  have hata := l.ata_le
  obtain ⟨w₀, w₁, w₂, hnew, hroom, hset, hwrite, -⟩ := CELLStream.exists_written 200 (fun _ => 0)
    CMD.logout.code l.fields (by rw [l.length_encode_fields]; omega) (by decide)
  obtain ⟨w, hfin, -⟩ := CELLStream.finished (by decide) (by decide) hnew hroom hset hwrite
  exact ⟨w₀, w₁, w₂, w, hnew, hroom, hset, hwrite, hfin⟩

/-- A new client has room for any reply. -/
theorem Logout.reply_room (l : Logout) (sm rm : ℕ → UInt8) :
    ((CELLClient.new 3 10240 10240 sm rm).sendBuff.bytes.length : ℤ) +
      (4 + (encode l.fields).length) ≤ (CELLClient.new 3 10240 10240 sm rm).sendBuff.nSize := by
  have hname := l.name_le
  have hpw := l.pw_le
  have hata := l.ata_le
  rw [CELLClient.sendBuff_new, CELLBuffer.bytes_new, l.length_encode_fields,
    show (CELLBuffer.new 10240 sm).nSize = 10240 from rfl, List.length_nil]
  omega

/-- Zeros, with arrays of the given lengths. -/
def Logout.zeros (name pw : Fin 33) (ata : Fin 11) : Logout where
  n1 := .replicate _ 0
  n2 := .replicate _ 0
  n3 := .replicate _ 0
  n4 := .replicate _ 0
  n5 := .replicate _ 0
  name := .replicate name (.replicate _ 0)
  pw := .replicate pw (.replicate _ 0)
  ata := .replicate ata (.replicate _ 0)
  name_le := by rw [List.length_replicate]; omega
  pw_le := by rw [List.length_replicate]; omega
  ata_le := by rw [List.length_replicate]; omega

/-- A request with the longest arrays is not echoed completely. -/
theorem not_logout_echoed : ¬∀ (nSize : ℤ) (mem : ℕ → UInt8) (l : Logout)
    (w₀ w₁ w₂ w : CELLStream) (c : CELLClient) (s : MyServer) (rest : List UInt8)
    (mem' : ℕ → UInt8), -2147483648 ≤ nSize → nSize < 2147483648 →
    CELLStream.newWrite nSize mem = .ok w₀ → w₀.canWrite 2 = true →
    w₀.setNetCmd CMD.logout.code = .ok w₁ → w₁.writeFields l.fields = .ok (true, w₂) →
    w₂.finsh = .ok w → c.sendBuff.WF →
    c.sendBuff.bytes.length + (4 + (encode l.fields).length) ≤ c.sendBuff.nSize →
    ∃ s' c' reply, s.onNetMsg c (w.data.take w.length.toNat ++ rest) mem' = .ok (s', c') ∧
      c'.sendBuff.bytes = c.sendBuff.bytes ++ reply ∧ Echoes reply l := by
  intro hall
  obtain ⟨w₀, w₁, w₂, w, hnew, hroom, hset, hwrite, hfin⟩ :=
    exists_logout_request (.zeros 32 32 10)
  have hc : (CELLClient.new 3 10240 10240 (fun _ => 0) fun _ => 0).sendBuff.WF :=
    CELLBuffer.new_wf (by decide) (by decide) _
  have hfree := (Logout.zeros 32 32 10).reply_room (fun _ => 0) fun _ => 0
  obtain ⟨s', c', reply, hrun, hbytes, hechoes⟩ := hall 200 _ _ w₀ w₁ w₂ w _
    ⟨.zero, false, false, false, []⟩ [] (fun _ => 0) (by decide) (by decide) hnew hroom hset
    hwrite hfin hc hfree
  obtain ⟨s'', c'', hrun', hbytes'⟩ := MyServer.onNetMsg_request (by decide) (by decide) hnew hroom
    hset hwrite hfin hc hfree ⟨.zero, false, false, false, []⟩ [] (fun _ => 0)
  obtain ⟨-, rfl⟩ := Prod.mk.inj (Except.ok.inj (hrun.symm.trans hrun'))
  obtain rfl := List.append_cancel_left (hbytes.symm.trans hbytes')
  exact absurd ((Logout.zeros 32 32 10).echoes_reply_iff.mp hechoes) (by decide)

/-- A request with short arrays is. -/
theorem logout_echoed_iff_short : ∃ (m : List UInt8) (s : MyServer) (c : CELLClient) (s' : MyServer)
    (c' : CELLClient), s.onNetMsg c m (fun _ => 0) = .ok (s', c') ∧
      Echoes c'.sendBuff.bytes (.zeros 5 8 10) := by
  obtain ⟨w₀, w₁, w₂, w, hnew, hroom, hset, hwrite, hfin⟩ := exists_logout_request (.zeros 5 8 10)
  obtain ⟨s', c', reply, hrun, hbytes, hiff⟩ := logout_echoed_iff (by decide) (by decide) hnew hroom
    hset hwrite hfin (CELLBuffer.new_wf (by decide) (by decide) _)
    ((Logout.zeros 5 8 10).reply_room (fun _ => 0) fun _ => 0) ⟨.zero, false, false, false, []⟩ []
    (fun _ => 0)
  rw [CELLClient.sendBuff_new, CELLBuffer.bytes_new, List.nil_append] at hbytes
  exact ⟨_, _, _, s', c', hrun, hbytes ▸ hiff.mpr (by decide)⟩

end CellNet
