import CellNet.SelectEpoll

/-!
# The select server on Windows

On Windows a `CELLFDSet` is a count and an array of descriptors. `FD_SET` appends a
descriptor that is not there yet while the count is below `FD_SETSIZE`, which is more than
the memory of a set is for. `ReadData` and `WriteData` go through the arrays that `select`
left and look each descriptor up in the map.

Building a set anew returns exactly if there is memory for a descriptor of every client
(`readFold_fits`, `readFold_overflow`). The two loops are then a sweep of the clients that
are found (`sweep_found`), with the effect it has elsewhere, in whatever order `select`
leaves its arrays : `windows_round_iff`.
-/

namespace CellNet

namespace Windows

/-! ## The sets -/

/-- `FD_SETSIZE`. -/
def FD_SETSIZE : ℕ :=
  65535

/-- `_nfdSize`, where a `SOCKET` has `w` bytes. -/
def nfdSize (w : ℕ) : ℕ :=
  4 + w * CELL_MAX_FD.toNat

/-- The bytes of an `fd_set` up to the end of `fd_array[n - 1]`. The array is aligned to its
elements. -/
def fdSetSize (w n : ℕ) : ℕ :=
  max 4 w + w * n

theorem fdSetSize_zero_le (w : ℕ) : fdSetSize w 0 ≤ nfdSize w := by
  have hmax : CELL_MAX_FD.toNat = 10240 := rfl
  rw [fdSetSize, nfdSize, hmax]
  omega

/-- The descriptors there is memory for. -/
def slots (w : ℕ) : ℕ :=
  (nfdSize w - max 4 w) / w

-- `CELL_MAX_FD`, and one less where the array is not aligned to the count
example : (slots 4, slots 8) = (10240, 10239) := by decide

theorem fits_iff {w n : ℕ} (hw : 0 < w) : fdSetSize w n ≤ nfdSize w ↔ n ≤ slots w := by
  have hzero := fdSetSize_zero_le w
  rw [fdSetSize] at hzero ⊢
  rw [slots, Nat.le_div_iff_mul_le hw, Nat.mul_comm n w]
  omega

theorem fdSetSize_mono (w : ℕ) {m n : ℕ} (h : m ≤ n) : fdSetSize w m ≤ fdSetSize w n :=
  Nat.add_le_add_left (Nat.mul_le_mul_left w h) _

/-- A `CELLFDSet`. -/
structure CELLFDSet (w : ℕ) where
  /-- The `fd_count` descriptors in `fd_array`. -/
  fdArray : List SOCKET
  fits : fdSetSize w fdArray.length ≤ nfdSize w

namespace CELLFDSet

variable {w : ℕ}

/-- The set after `zero()`, and a new one. -/
def zero : CELLFDSet w :=
  ⟨[], fdSetSize_zero_le w⟩

/-- `fd_array[fd_count++] = s`. -/
def append (set : CELLFDSet w) (s : SOCKET) : Exec (CELLFDSet w) :=
  if h : fdSetSize w (set.fdArray ++ [s]).length ≤ nfdSize w then .ok ⟨set.fdArray ++ [s], h⟩
  else .error .outOfBounds

/-- `add`, which is `FD_SET`. -/
def add (set : CELLFDSet w) (s : SOCKET) : Exec (CELLFDSet w) :=
  if s ∈ set.fdArray then return set
  else if set.fdArray.length < FD_SETSIZE then set.append s
  else return set

end CELLFDSet

/-- Which of its descriptors `select` leaves in a set is up to it, and their order too. -/
abbrev Arrange :=
  (fds : List SOCKET) → { fds' : List SOCKET // fds'.Perm fds }

/-- The set that `select` leaves of the descriptors `ready`. -/
def CELLFDSet.selected {w : ℕ} (set : CELLFDSet w) (arrange : Arrange) (ready : List SOCKET) :
    CELLFDSet w where
  fdArray := (arrange (set.fdArray.filter (· ∈ ready))).1
  fits := by
    have hle := (arrange (set.fdArray.filter (· ∈ ready))).2.length_eq.trans_le
      (List.length_filter_le _ _)
    exact (fdSetSize_mono w hle).trans set.fits

/-- `select` : its return value and the two sets after it. It ignores `nfds`. The set
`fdWrite` is passed if `bNeedWrite`. -/
def select {w : ℕ} (arrange : Arrange) (fdRead fdWrite : CELLFDSet w) (bNeedWrite : Bool)
    (r : SelectResult) : ℤ × CELLFDSet w × CELLFDSet w :=
  match r with
  | .fail _ => (-1, fdRead, fdWrite)
  | .ready readable writable =>
    let rs := fdRead.selected arrange readable
    let ws := fdWrite.selected arrange writable
    if bNeedWrite then ((rs.fdArray.length + ws.fdArray.length : ℕ), rs, ws)
    else ((rs.fdArray.length : ℕ), rs, fdWrite)

/-! ## DoNetEvents -/

/-- The members of a `CELLSelectServer`. -/
structure CELLSelectServer (w : ℕ) where
  fdRead : CELLFDSet w
  fdWrite : CELLFDSet w
  fdReadBak : CELLFDSet w
  maxSock : SOCKET

section DoNetEvents

variable {w : ℕ}

/-- One client in the loop that builds `_fdRead` and `_maxSock`. -/
def addRead (s : ServerState) (acc : CELLFDSet w × SOCKET) (e : SOCKET × Ptr) :
    Exec (CELLFDSet w × SOCKET) := do
  let fd ← s.sockfd e.2
  let fdRead ← acc.1.add fd
  return (fdRead, if acc.2 < fd then fd else acc.2)

/-- The read set, built anew if `_clients_change` is set. -/
def readSet (s : ServerState) (d : CELLSelectServer w) :
    Exec (ServerState × CELLSelectServer w) :=
  if s.srv.clientsChange then do
    let s := s.resetChange
    match s.srv.clients.entries with
    | [] => .error .derefEnd
    | (_, p) :: _ => do
      let maxSock ← s.sockfd p
      let (fdRead, maxSock) ← s.srv.clients.entries.foldlM (addRead s) (.zero, maxSock)
      return (s, { d with fdRead, maxSock, fdReadBak := fdRead })
  else
    return (s, { d with fdRead := d.fdReadBak })

/-- One client in the loop that builds `_fdWrite`. -/
def addWrite (s : ServerState) (acc : Bool × CELLFDSet w) (e : SOCKET × Ptr) :
    Exec (Bool × CELLFDSet w) := do
  let c ← s.heap.deref e.2
  if c.needWrite then
    let fdWrite ← acc.2.add c.sockfd
    return (true, fdWrite)
  else
    return acc

/-- `ReadData` for one descriptor of the array. -/
def readFd (sys : SysCalls) (s : ServerState) (fd : SOCKET) : Exec ServerState :=
  match s.srv.clients.find fd with
  | none => return s
  | some e => do
    let (nLen, s) ← s.recvData e.2 (sys.recv e.2)
    if SOCKET_ERROR = nLen then
      let s ← s.onClientLeave e.2
      return s.erase e.1
    else
      return s

/-- `ReadData`. -/
def readData (s : ServerState) (sys : SysCalls) (fdRead : CELLFDSet w) : Exec ServerState :=
  fdRead.fdArray.foldlM (readFd sys) s

/-- `WriteData` for one descriptor of the array. -/
def writeFd (sys : SysCalls) (s : ServerState) (fd : SOCKET) : Exec ServerState :=
  match s.srv.clients.find fd with
  | none => return s
  | some e => do
    let (ret, s) ← s.sendDataReal e.2 (sys.send e.2)
    if SOCKET_ERROR = ret then
      let s ← s.onClientLeave e.2
      return s.erase e.1
    else
      return s

/-- `WriteData`. -/
def writeData (s : ServerState) (sys : SysCalls) (fdWrite : CELLFDSet w) : Exec ServerState :=
  fdWrite.fdArray.foldlM (writeFd sys) s

/-- `DoNetEvents`. -/
def doNetEvents (arrange : Arrange) (s : ServerState) (sys : SysCalls)
    (d : CELLSelectServer w) : Exec (Bool × ServerState × CELLSelectServer w) := do
  let (s, d) ← readSet s d
  let (bNeedWrite, fdWrite) ← s.srv.clients.entries.foldlM (addWrite s) (false, .zero)
  let (ret, fdRead, fdWrite) := select arrange d.fdRead fdWrite bNeedWrite sys.select
  let d := { d with fdRead, fdWrite }
  if ret < 0 then
    return (sys.select.eintr, s, d)
  else if ret = 0 then
    return (true, s, d)
  else
    let s ← readData s sys fdRead
    let s ← writeData s sys fdWrite
    return (true, s, d)

end DoNetEvents

/-! ## Building the sets -/

section Sets

variable {w : ℕ} {set : CELLFDSet w} {fd : SOCKET}

theorem add_fits (hnew : fd ∉ set.fdArray) (hlt : set.fdArray.length < FD_SETSIZE)
    (hfits : fdSetSize w (set.fdArray.length + 1) ≤ nfdSize w) :
    ∃ set', set.add fd = .ok set' ∧ set'.fdArray = set.fdArray ++ [fd] := by
  have hlen : (set.fdArray ++ [fd]).length = set.fdArray.length + 1 := by simp
  refine ⟨⟨set.fdArray ++ [fd], hlen ▸ hfits⟩, ?_, rfl⟩
  rw [CELLFDSet.add, if_neg hnew, if_pos hlt, CELLFDSet.append, dif_pos (hlen ▸ hfits)]

theorem add_overflow (hnew : fd ∉ set.fdArray) (hlt : set.fdArray.length < FD_SETSIZE)
    (hfits : ¬fdSetSize w (set.fdArray.length + 1) ≤ nfdSize w) :
    set.add fd = .error .outOfBounds := by
  have hlen : (set.fdArray ++ [fd]).length = set.fdArray.length + 1 := by simp
  rw [CELLFDSet.add, if_neg hnew, if_pos hlt, CELLFDSet.append, dif_neg (hlen ▸ hfits)]

/-- A `SOCKET` is as wide as a pointer. -/
theorem length_lt_setsize (hw : w ∈ [4, 8]) {n : ℕ} (h : fdSetSize w n ≤ nfdSize w) :
    n < FD_SETSIZE := by
  have hmax : CELL_MAX_FD.toNat = 10240 := rfl
  rw [fdSetSize, nfdSize, hmax] at h
  rw [FD_SETSIZE]
  rcases List.mem_pair.mp hw with rfl | rfl <;> omega

theorem not_mem_append {e : SOCKET × Ptr} {es : List (SOCKET × Ptr)} {fds : List SOCKET}
    (hnotin : e.1 ∉ es.map Prod.fst) (hnew : ∀ e' ∈ e :: es, e'.1 ∉ fds) :
    ∀ e' ∈ es, e'.1 ∉ fds ++ [e.1] := by
  intro e' he hmem
  rw [List.mem_append, List.mem_singleton] at hmem
  rcases hmem with hmem | heq
  · exact hnew e' (List.mem_cons_of_mem _ he) hmem
  · exact hnotin (List.mem_map.mpr ⟨e', he, heq⟩)

variable {s : ServerState}

/-- With memory for all of them, the loop adds the descriptors to the set. -/
theorem readFold_fits (hw : w ∈ [4, 8]) {es : List (SOCKET × Ptr)}
    (hfd : ∀ e ∈ es, s.sockfd e.2 = .ok e.1) (hnodup : (es.map Prod.fst).Nodup)
    {a : CELLFDSet w × SOCKET} (hnew : ∀ e ∈ es, e.1 ∉ a.1.fdArray)
    (hfits : fdSetSize w (a.1.fdArray.length + es.length) ≤ nfdSize w) :
    ∃ r, es.foldlM (addRead s) a = .ok r ∧ r.1.fdArray = a.1.fdArray ++ es.map Prod.fst := by
  induction es generalizing a with
  | nil => exact ⟨a, rfl, (List.append_nil _).symm⟩
  | cons e es ih =>
    obtain ⟨hnotin, hnodup'⟩ := List.nodup_cons.mp hnodup
    have hlt := length_lt_setsize hw a.1.fits
    rw [List.length_cons] at hfits
    obtain ⟨set, hadd, harr⟩ := add_fits (hnew e List.mem_cons_self) hlt
      ((fdSetSize_mono w (by omega)).trans hfits)
    obtain ⟨r, hr, hbits⟩ := ih (fun e' he => hfd e' (List.mem_cons_of_mem _ he)) hnodup'
      (a := (set, if a.2 < e.1 then e.1 else a.2)) (harr ▸ not_mem_append hnotin hnew) (by
        rw [harr, List.length_append, List.length_singleton, Nat.add_assoc, Nat.add_comm 1]
        exact hfits)
    refine ⟨r, ?_, ?_⟩
    · rw [List.foldlM_cons, addRead, hfd e List.mem_cons_self, Fallible.ok_bind, hadd,
        Fallible.ok_bind]
      exact hr
    · rw [hbits, harr, List.append_assoc, List.map_cons]
      rfl

/-- Without it, the loop writes behind the set. -/
theorem readFold_overflow (hw : w ∈ [4, 8]) {es : List (SOCKET × Ptr)}
    (hfd : ∀ e ∈ es, s.sockfd e.2 = .ok e.1) (hnodup : (es.map Prod.fst).Nodup)
    {a : CELLFDSet w × SOCKET} (hnew : ∀ e ∈ es, e.1 ∉ a.1.fdArray)
    (hfits : ¬fdSetSize w (a.1.fdArray.length + es.length) ≤ nfdSize w) :
    es.foldlM (addRead s) a = .error .outOfBounds := by
  induction es generalizing a with
  | nil => exact absurd a.1.fits hfits
  | cons e es ih =>
    obtain ⟨hnotin, hnodup'⟩ := List.nodup_cons.mp hnodup
    have hlt := length_lt_setsize hw a.1.fits
    have hnew' := hnew e List.mem_cons_self
    rw [List.foldlM_cons, addRead, hfd e List.mem_cons_self, Fallible.ok_bind]
    by_cases hone : fdSetSize w (a.1.fdArray.length + 1) ≤ nfdSize w
    swap
    · rw [add_overflow hnew' hlt hone]
      rfl
    obtain ⟨set, hadd, harr⟩ := add_fits hnew' hlt hone
    rw [hadd, Fallible.ok_bind]
    refine ih (fun e' he => hfd e' (List.mem_cons_of_mem _ he)) hnodup'
      (harr ▸ not_mem_append hnotin hnew) ?_
    rwa [harr, List.length_append, List.length_singleton, Nat.add_assoc, Nat.add_comm 1]

/-- The client of the entry has something to send. -/
def needsWrite (s : ServerState) (e : SOCKET × Ptr) : Bool :=
  (s.heap.get? e.2).any CELLClient.needWrite

/-- The loop adds the descriptors of the clients that have something to send. -/
theorem writeFold_fits (hw : w ∈ [4, 8]) {es : List (SOCKET × Ptr)}
    (hkeyed : ∀ e ∈ es, ∃ c, s.heap.get? e.2 = some c ∧ c.sockfd = e.1)
    (hnodup : (es.map Prod.fst).Nodup) {a : Bool × CELLFDSet w}
    (hnew : ∀ e ∈ es, e.1 ∉ a.2.fdArray)
    (hfits : fdSetSize w (a.2.fdArray.length + es.length) ≤ nfdSize w) :
    ∃ r, es.foldlM (addWrite s) a = .ok r ∧ r.1 = (a.1 || es.any (needsWrite s)) ∧
      r.2.fdArray = a.2.fdArray ++ (es.filter (needsWrite s)).map Prod.fst := by
  induction es generalizing a with
  | nil => exact ⟨a, rfl, (Bool.or_false _).symm, (List.append_nil _).symm⟩
  | cons e es ih =>
    obtain ⟨hnotin, hnodup'⟩ := List.nodup_cons.mp hnodup
    obtain ⟨c, hc, hk⟩ := hkeyed e List.mem_cons_self
    have hkeyed' : ∀ e' ∈ es, ∃ c, s.heap.get? e'.2 = some c ∧ c.sockfd = e'.1 :=
      fun e' he => hkeyed e' (List.mem_cons_of_mem _ he)
    have hneeds : needsWrite s e = c.needWrite := by rw [needsWrite, hc, Option.any_some]
    rw [List.length_cons] at hfits
    rw [List.foldlM_cons, addWrite, Heap.deref_eq hc, Fallible.ok_bind, List.any_cons,
      List.filter_cons, hneeds, hk]
    by_cases hneed : c.needWrite = true
    · rw [if_pos hneed, if_pos hneed, hneed, Bool.true_or, Bool.or_true]
      obtain ⟨set, hadd, harr⟩ := add_fits (hnew e List.mem_cons_self)
        (length_lt_setsize hw a.2.fits) ((fdSetSize_mono w (by omega)).trans hfits)
      obtain ⟨r, hr, htrue, hbits⟩ := ih hkeyed' hnodup' (a := (true, set))
        (harr ▸ not_mem_append hnotin hnew) (by
          rw [harr, List.length_append, List.length_singleton, Nat.add_assoc, Nat.add_comm 1]
          exact hfits)
      refine ⟨r, ?_, htrue.trans (Bool.true_or _), ?_⟩
      · rw [hadd, Fallible.ok_bind]
        exact hr
      · rw [hbits, harr, List.append_assoc, List.map_cons]
        rfl
    · rw [if_neg hneed, if_neg hneed, Bool.eq_false_iff.mpr hneed, Bool.false_or]
      exact ih hkeyed' hnodup' (fun e' he => hnew e' (List.mem_cons_of_mem _ he))
        ((fdSetSize_mono w (by omega)).trans hfits)

end Sets

/-! ## A loop over descriptors -/

section Loops

variable {E : UB → Prop} {R : Effect Ptr CELLClient NetEvent} {s t : ServerState}
  {others : List Ptr} {sys : SysCalls} {k : SOCKET} {p : Ptr} {c : CELLClient}

/-- The clients of the descriptors that are found in the map. -/
def found (s : ServerState) (fds : List SOCKET) : List Ptr :=
  fds.filterMap fun fd => (s.srv.clients.find fd).map Prod.snd

theorem mem_found {fds : List SOCKET} :
    p ∈ found s fds ↔ ∃ fd ∈ fds, (fd, p) ∈ s.srv.clients.entries := by
  simp only [found, List.mem_filterMap, Option.map_eq_some_iff, SortedMap.find_eq_some]
  constructor
  · rintro ⟨fd, hfd, ⟨k, _⟩, ⟨hmem, rfl⟩, rfl⟩
    exact ⟨k, hfd, hmem⟩
  · rintro ⟨fd, hfd, hmem⟩
    exact ⟨fd, hfd, (fd, p), ⟨hmem, rfl⟩, rfl⟩

/-- A loop that visits the clients of the descriptors in the map, and passes over the other
descriptors. -/
theorem sweep_found {visit : ServerState → SOCKET → Exec ServerState} (h : s.Owns others)
    {fds : List SOCKET} (hnodup : fds.Nodup)
    (hskip : ∀ t fd, t.srv.clients.find fd = none → visit t fd = .ok t)
    (hvisit : ∀ t k p, k ∈ fds → t.Owns others → (k, p) ∈ s.srv.clients.entries →
      (k, p) ∈ t.srv.clients.entries → t.table p = s.table p →
      Exec.Sat E (visit t k) fun t' => t.Visited R t' others (k, p)) :
    Exec.Sat E (fds.foldlM visit s) fun s' => s.Toured R s' others (found s fds) := by
  induction fds generalizing s with
  | nil => exact ⟨.refl h, .refl s, .nil R _⟩
  | cons fd fds ih =>
    obtain ⟨hnotin, hnodup'⟩ := List.nodup_cons.mp hnodup
    rw [List.foldlM_cons]
    cases hfind : s.srv.clients.find fd with
    | none =>
      rw [hskip s fd hfind, Fallible.ok_bind]
      have hsame : found s (fd :: fds) = found s fds := by
        rw [found, List.filterMap_cons, hfind]
        rfl
      rw [hsame]
      exact ih h hnodup' fun t k p hk => hvisit t k p (List.mem_cons_of_mem _ hk)
    | some e =>
      obtain ⟨hmem, rfl⟩ := SortedMap.find_eq_some.mp hfind
      refine (hvisit s e.1 e.2 List.mem_cons_self h hmem hmem rfl).bind fun t hv => ?_
      -- the entries of the other descriptors are those of before
      have hentries : ∀ k ∈ fds, t.srv.clients.find k = s.srv.clients.find k := by
        intro k hk
        refine Option.ext fun x => ?_
        rw [SortedMap.find_eq_some, SortedMap.find_eq_some]
        refine and_congr_left fun hx => ⟨hv.shrunk.sub x, fun hx' => hv.mem x hx' ?_⟩
        rintro rfl
        exact hnotin (hx ▸ hk)
      have hfound : found s (e.1 :: fds) = e.2 :: found t fds := by
        rw [found, List.filterMap_cons, hfind, Option.map_some, found]
        exact congrArg (e.2 :: ·) (List.filterMap_congr fun k hk => by rw [hentries k hk])
      have hne : ∀ k q, k ∈ fds → (k, q) ∈ t.srv.clients.entries → q ≠ e.2 := by
        rintro k q hk hq rfl
        obtain ⟨c, hc, hkc⟩ := h.keyed _ _ hmem
        obtain rfl := (h.key_eq (hv.shrunk.sub _ hq) hc).symm.trans hkc
        exact hnotin hk
      rw [hfound]
      refine (ih hv.kept.owns hnodup' fun u k q hk hu hq hqu htable => ?_).mono fun s' hs' =>
        hv.cons (fun hmem' => ?_) hs'
      · refine hvisit u k q (List.mem_cons_of_mem _ hk) hu (hv.shrunk.sub _ hq) hqu ?_
        rw [htable, hv.frame q (hne k q hk hq)]
      · obtain ⟨k, hk, hq⟩ := mem_found.mp hmem'
        exact hne k _ hk hq rfl

theorem readFd_visited (sys : SysCalls) (h : s.Owns others)
    (hp : (k, p) ∈ s.srv.clients.entries) (hc : s.heap.get? p = some c)
    (hrecv : Exec.Sat E (c.recvData (sys.recv p)) fun _ => True) :
    Exec.Sat E (readFd sys s k) fun s' =>
      s.Visited (fun p c => ReadEffect True (sys.recv p) p c) s' others (k, p) := by
  obtain rfl := h.key_eq hp hc
  rw [readFd, SortedMap.find_eq hp]
  refine (ServerState.recvData_sat hc hrecv).bind ?_
  rintro ⟨n, t⟩ ⟨c', hr, hu⟩
  dsimp only at hr hu ⊢
  have hfd' : c'.sockfd = c.sockfd := by
    obtain ⟨b, rfl⟩ := CELLClient.recvData_of_ok hr
    rfl
  exact hu.leave_visited hfd' h hp hc (fun hn => .failed trivial (hn ▸ hr))
    fun hn => .read trivial hr hn

theorem writeFd_visited (sys : SysCalls) (h : s.Owns others)
    (hp : (k, p) ∈ s.srv.clients.entries) (hc : s.heap.get? p = some c)
    (hsend : Exec.Sat E (c.sendDataReal (sys.send p)) fun _ => True) :
    Exec.Sat E (writeFd sys s k) fun s' =>
      s.Visited (fun p c => WriteEffect True (sys.send p) p c) s' others (k, p) := by
  obtain rfl := h.key_eq hp hc
  rw [writeFd, SortedMap.find_eq hp]
  refine (ServerState.sendDataReal_sat hc hsend).bind ?_
  rintro ⟨n, t⟩ ⟨sent, c', hr, hu⟩
  dsimp only at hr hu ⊢
  have hfd' : c'.sockfd = c.sockfd := by
    obtain ⟨b, rfl⟩ := CELLClient.sendDataReal_of_ok hr
    rfl
  exact hu.leave_visited hfd' h hp hc (fun hn => .failed trivial (hn ▸ hr))
    fun hn => .sent trivial hr hn

end Loops

/-! ## One round -/

section Round

variable {w : ℕ} {E : UB → Prop} {s t : ServerState} {others : List Ptr} {sys : SysCalls}
  {d : CELLSelectServer w} {arrange : Arrange}

/-- The backup is the set of the map, unless `_clients_change` is set. -/
def CacheReal (s : ServerState) (d : CELLSelectServer w) : Prop :=
  s.srv.clientsChange = false → d.fdReadBak.fdArray = s.srv.clients.keys

theorem mem_selected {set : CELLFDSet w} {ready : List SOCKET} {fd : SOCKET} :
    fd ∈ (set.selected arrange ready).fdArray ↔ fd ∈ set.fdArray ∧ fd ∈ ready := by
  rw [CELLFDSet.selected, (arrange _).2.mem_iff, List.mem_filter, decide_eq_true_iff]

theorem nodup_selected {set : CELLFDSet w} (h : set.fdArray.Nodup) (ready : List SOCKET) :
    (set.selected arrange ready).fdArray.Nodup :=
  (arrange _).2.nodup_iff.mpr (h.filter _)

theorem readSet_anew (h : s.Owns others) (hchange : s.srv.clientsChange = true)
    {e : SOCKET × Ptr} {es : List (SOCKET × Ptr)} (hes : s.srv.clients.entries = e :: es) :
    readSet s d = (e :: es).foldlM (addRead s.resetChange) (.zero, e.1) >>= fun r =>
      .ok (s.resetChange, { d with fdRead := r.1, maxSock := r.2, fdReadBak := r.1 }) := by
  have hentries : s.resetChange.srv.clients.entries = e :: es := hes
  have hfd : s.resetChange.sockfd e.2 = .ok e.1 := h.sockfd (hes ▸ List.mem_cons_self)
  rw [readSet, if_pos hchange]
  dsimp only
  rw [hentries]
  dsimp only
  rw [hfd]
  rfl

/-- The read set of the map, unless there is no memory for it. -/
theorem readSet_cases (hw : w ∈ [4, 8]) (h : s.Owns others) (hnonempty : s.srv.clients.entries ≠ [])
    (hcache : CacheReal s d) :
    (fdSetSize w s.srv.clients.size ≤ nfdSize w ∧ ∃ d', readSet s d = .ok (s.resetChange, d') ∧
      d'.fdRead.fdArray = s.srv.clients.keys ∧ d'.fdReadBak.fdArray = s.srv.clients.keys) ∨
    (¬fdSetSize w s.srv.clients.size ≤ nfdSize w ∧ readSet s d = .error .outOfBounds) := by
  by_cases hchange : s.srv.clientsChange = true
  swap
  · have hkeys := hcache (Bool.eq_false_iff.mpr hchange)
    have hfits := d.fdReadBak.fits
    rw [hkeys, SortedMap.keys, List.length_map] at hfits
    refine Or.inl ⟨hfits, { d with fdRead := d.fdReadBak }, ?_, hkeys, hkeys⟩
    rw [readSet, if_neg hchange, ServerState.resetChange_eq (Bool.eq_false_iff.mpr hchange)]
    rfl
  obtain ⟨e, es, hes⟩ := List.exists_cons_of_ne_nil hnonempty
  have hfd : ∀ e' ∈ e :: es, s.resetChange.sockfd e'.2 = .ok e'.1 :=
    fun e' he => h.sockfd (hes ▸ he)
  have hnodup : ((e :: es).map Prod.fst).Nodup := hes ▸ s.srv.clients.sorted_keys.imp ne_of_lt
  have hsize : (CELLFDSet.zero : CELLFDSet w).fdArray.length + (e :: es).length =
      s.srv.clients.size := by
    rw [CELLFDSet.zero, List.length_nil, Nat.zero_add, SortedMap.size, hes]
  rw [readSet_anew h hchange hes]
  by_cases hfits : fdSetSize w s.srv.clients.size ≤ nfdSize w
  · obtain ⟨r, hr, harr⟩ := readFold_fits hw hfd hnodup (a := (.zero, e.1))
      (fun _ _ => List.not_mem_nil) (hsize ▸ hfits)
    have hkeys : r.1.fdArray = s.srv.clients.keys := by
      rw [harr, SortedMap.keys, hes]
      rfl
    rw [hr]
    exact Or.inl ⟨hfits, _, rfl, hkeys, hkeys⟩
  · rw [readFold_overflow hw hfd hnodup (fun _ _ => List.not_mem_nil) (hsize ▸ hfits)]
    exact Or.inr ⟨hfits, rfl⟩

/-- `ReadData` and then `WriteData`. A client that its read removed is not found any more. -/
theorem readWriteData_toured (h : s.Owns others) {fdRead fdWrite : CELLFDSet w}
    (hread : fdRead.fdArray.Nodup) (hwrite : fdWrite.fdArray.Nodup)
    (hrecv : ∀ p c, s.heap.get? p = some c → Exec.Sat E (c.recvData (sys.recv p)) fun _ => True)
    (hsend : ∀ p c, s.heap.get? p = some c → ∀ b,
      Exec.Sat E (({ c with recvBuff := b } : CELLClient).sendDataReal (sys.send p))
        fun _ => True) :
    Exec.Sat E (readData s sys fdRead >>= fun s => writeData s sys fdWrite) fun s' =>
      s.Toured (Effect.andThen
        (fun p c => ReadEffect (c.sockfd ∈ fdRead.fdArray) (sys.recv p) p c)
        fun p c => WriteEffect (c.sockfd ∈ fdWrite.fdArray) (sys.send p) p c)
        s' others s.srv.clients.values := by
  have hsub : ∀ {t : ServerState} {fds : List SOCKET}, ∀ p ∈ found t fds,
      p ∈ t.srv.clients.values := by
    intro t fds p hp
    obtain ⟨fd, -, hmem⟩ := mem_found.mp hp
    exact List.mem_map.mpr ⟨_, hmem, rfl⟩
  have hidle : ∀ {t : ServerState} {fds : List SOCKET} {p : Ptr} {c : CELLClient}, t.Owns others →
      p ∈ t.srv.clients.values → p ∉ found t fds → t.heap.get? p = some c → c.sockfd ∉ fds := by
    intro t fds p c ht hp hnot hc hfd
    obtain ⟨⟨k, _⟩, hmem, rfl⟩ := List.mem_map.mp hp
    obtain rfl := ht.key_eq hmem hc
    exact hnot (mem_found.mpr ⟨_, hfd, hmem⟩)
  have hfirst : Exec.Sat E (readData s sys fdRead) fun s' =>
      s.Toured (fun p c => ReadEffect (c.sockfd ∈ fdRead.fdArray) (sys.recv p) p c) s' others
        s.srv.clients.values := by
    refine (sweep_found h hread (fun t fd hfind => by rw [readFd, hfind]; rfl)
      fun t k p hk ht hp hpt htable => ?_).mono fun s' hs' => hs'.widen hsub
        fun p hp hnot c hc => .idle (hidle h hp hnot hc)
    obtain ⟨c, hc⟩ := h.get? (CELLServer.mem_held_of_entry hp)
    have hct : t.heap.get? p = some c := (congrArg Prod.fst htable).trans hc
    refine (readFd_visited sys ht hpt hct (hrecv p c hc)).mono fun t' hv =>
      hv.mono fun c' o es hc' hR => hR.congr (iff_of_true trivial ?_)
    rwa [ht.key_eq hpt hc']
  refine hfirst.bind fun t hr => ?_
  refine (sweep_found hr.owns hwrite (fun t fd hfind => by rw [writeFd, hfind]; rfl)
    (R := fun p c => WriteEffect (c.sockfd ∈ fdWrite.fdArray) (sys.send p) p c)
    fun u k p hk hu hp hpu htable => ?_).mono fun s' hs' => ?_
  · obtain ⟨c, hc⟩ := hr.owns.get? (CELLServer.mem_held_of_entry hp)
    have hcu : u.heap.get? p = some c := (congrArg Prod.fst htable).trans hc
    have hps := hr.shrunk.sub _ hp
    obtain ⟨c₀, hc₀⟩ := h.get? (CELLServer.mem_held_of_entry hps)
    have hv := hr.swept.visit p (List.mem_map.mpr ⟨(k, p), hps, rfl⟩)
    obtain ⟨c₁, es, hc₁, hR⟩ := hv.exists_of_some hc
    obtain rfl : c₀ = c₁ := Option.some.inj (hc₀.symm.trans hc₁)
    obtain ⟨b, rfl⟩ := hR.recvBuff_only
    refine (writeFd_visited sys hu hpu hcu (hsend p c₀ hc₀ b)).mono fun t' hv =>
      hv.mono fun c' o es hc' hW => hW.congr (iff_of_true trivial ?_)
    rwa [hu.key_eq hpu hc']
  · refine hr.trans ((hs'.widen hsub fun p hp hnot c hc =>
      .idle (hidle hr.owns hp hnot hc)).widen (fun p hp => ?_) fun p hp hnot c hc => ?_)
    · obtain ⟨e, he, rfl⟩ := List.mem_map.mp hp
      exact List.mem_map.mpr ⟨e, hr.shrunk.sub e he, rfl⟩
    · rw [hr.get?_eq_none h hp hnot] at hc
      cases hc

/-- What `select` leaves of the sets it was given. -/
theorem select_ready (arrange : Arrange) (fdRead : CELLFDSet w) {fdWrite : CELLFDSet w}
    {bNeedWrite : Bool} (hnone : bNeedWrite = false → fdWrite.fdArray = [])
    (readable writable : List SOCKET) : ∃ (ret : ℕ) (rs ws : CELLFDSet w),
      select arrange fdRead fdWrite bNeedWrite (.ready readable writable) = ((ret : ℤ), rs, ws) ∧
      (ret = 0 → rs.fdArray = [] ∧ ws.fdArray = []) ∧
      (∀ fd, fd ∈ rs.fdArray ↔ fd ∈ fdRead.fdArray ∧ fd ∈ readable) ∧
      (∀ fd, fd ∈ ws.fdArray ↔ fd ∈ fdWrite.fdArray ∧ fd ∈ writable) ∧
      (fdRead.fdArray.Nodup → rs.fdArray.Nodup) ∧
      (fdWrite.fdArray.Nodup → ws.fdArray.Nodup) := by
  rw [select]
  split
  · refine ⟨_, _, _, rfl, fun hret => ?_, fun _ => mem_selected, fun _ => mem_selected,
      fun h => nodup_selected h readable, fun h => nodup_selected h writable⟩
    obtain ⟨hrs, hws⟩ := Nat.add_eq_zero_iff.mp hret
    exact ⟨List.length_eq_zero_iff.mp hrs, List.length_eq_zero_iff.mp hws⟩
  · have hnil := hnone (Bool.eq_false_iff.mpr ‹_›)
    refine ⟨_, _, _, rfl, fun hret => ⟨List.length_eq_zero_iff.mp hret, hnil⟩,
      fun _ => mem_selected, fun fd => ?_, fun h => nodup_selected h readable, id⟩
    rw [hnil]
    exact iff_of_false List.not_mem_nil fun h => List.not_mem_nil h.1

/-- A client of the map is polled for writing if it has something to send. -/
theorem mem_polled (h : s.Owns others) {p : Ptr} {c : CELLClient}
    (hp : p ∈ s.srv.clients.values) (hc : s.heap.get? p = some c) :
    c.sockfd ∈ (s.srv.clients.entries.filter (needsWrite s)).map Prod.fst ↔
      c.needWrite = true := by
  obtain ⟨⟨k, q⟩, hmem, hq⟩ := List.mem_map.mp hp
  obtain rfl : q = p := hq
  obtain rfl := h.key_eq hmem hc
  have hneeds : needsWrite s (c.sockfd, q) = c.needWrite := by
    rw [needsWrite, hc, Option.any_some]
  rw [List.mem_map]
  constructor
  · rintro ⟨e, he, hk⟩
    obtain ⟨he, hneed⟩ := List.mem_filter.mp he
    obtain rfl : e = (c.sockfd, q) := Prod.ext hk (SortedMap.eq_of_mem (hk ▸ he) hmem)
    exact hneeds ▸ hneed
  · exact fun hneed => ⟨_, List.mem_filter.mpr ⟨hmem, hneeds ▸ hneed⟩, rfl⟩

/-- With memory for all clients, `DoNetEvents` is a sweep of the clients. -/
theorem doNetEvents_toured (hw : w ∈ [4, 8]) (h : s.Owns others) (hkind : s.srv.kind = .select)
    (hnonempty : s.srv.clients.entries ≠ []) (hcache : CacheReal s d)
    (hfits : fdSetSize w s.srv.clients.size ≤ nfdSize w)
    (hwf : ∀ p c, s.heap.get? p = some c → c.recvBuff.WF ∧ c.sendBuff.WF) :
    Exec.Sat E (doNetEvents arrange s sys d) fun x =>
      (x.1 = false ↔ sys.select = .fail false) ∧ CacheReal x.2.1 x.2.2 ∧
      s.resetChange.Toured (s.netEffect sys) x.2.1 others s.srv.clients.values := by
  obtain ⟨-, d₁, hread, hkeys, hbak⟩ := (readSet_cases hw h hnonempty hcache).resolve_right
    fun hover => hover.1 hfits
  have ho : s.resetChange.Owns others := ⟨h.nodup, h.live, h.keyed, h.registered⟩
  have hnodup : s.srv.clients.keys.Nodup := s.srv.clients.sorted_keys.imp ne_of_lt
  obtain ⟨⟨bNeedWrite, fdWrite⟩, hwrite, hneed, harr⟩ := writeFold_fits hw
    (s := s.resetChange) (fun e (he : e ∈ s.srv.clients.entries) => h.keyed e.1 e.2 he) hnodup
    (a := (false, .zero)) (fun _ _ => List.not_mem_nil) (by
      rw [CELLFDSet.zero, List.length_nil, Nat.zero_add]
      exact hfits)
  rw [CELLFDSet.zero, List.nil_append] at harr
  rw [Bool.false_or] at hneed
  dsimp only at harr hneed
  have hwnodup : fdWrite.fdArray.Nodup := harr ▸ hnodup.sublist (List.filter_sublist.map _)
  have hnone : bNeedWrite = false → fdWrite.fdArray = [] := by
    rintro rfl
    rw [harr, List.filter_eq_nil_iff.mpr (List.any_eq_false.mp hneed.symm), List.map_nil]
  rw [doNetEvents, hread, Fallible.ok_bind]
  dsimp only
  rw [show s.resetChange.srv.clients = s.srv.clients from rfl, hwrite, Fallible.ok_bind]
  dsimp only
  cases hsel : sys.select with
  | fail eintr =>
    refine ⟨by simp [SelectResult.eintr], fun _ => hbak, .idle ho fun p _ c _ => ?_⟩
    refine ServerState.netEffect_idle ?_ ?_ <;>
      simp [ServerState.Readable, ServerState.Writable, hkind, hsel, SelectResult.readable,
        SelectResult.writable]
  | ready readable writable =>
    obtain ⟨ret, rs, ws, hret, hzero, hrs, hws, hrnodup, hwnodup'⟩ :=
      select_ready arrange d₁.fdRead hnone readable writable
    have heffect : ∀ p c, p ∈ s.srv.clients.values → s.heap.get? p = some c →
        (c.sockfd ∈ rs.fdArray ↔ s.Readable sys p c) ∧
        ∀ b, (c.sockfd ∈ ws.fdArray ↔ s.Writable sys p { c with recvBuff := b }) := by
      intro p c hp hc
      have hkey : c.sockfd ∈ d₁.fdRead.fdArray := by
        obtain ⟨⟨k, q⟩, hmem, hq⟩ := List.mem_map.mp hp
        obtain rfl : q = p := hq
        obtain rfl := h.key_eq hmem hc
        exact hkeys ▸ SortedMap.mem_keys.mpr ⟨q, hmem⟩
      unfold ServerState.Readable ServerState.Writable
      rw [hkind, hsel, hrs, hws, harr]
      exact ⟨and_iff_right hkey, fun b => and_congr_left fun _ => mem_polled ho hp hc⟩
    rw [hret]
    dsimp only
    rw [if_neg (by omega)]
    split
    · -- nothing is ready
      obtain ⟨hrnil, hwnil⟩ := hzero (by omega)
      refine ⟨by simp, fun _ => hbak, .idle ho fun p hp c hc => ?_⟩
      obtain ⟨hreads, hwrites⟩ := heffect p c hp hc
      refine ServerState.netEffect_idle (fun hready => ?_) fun hready => ?_
      · simpa [hrnil] using hreads.mpr hready
      · simpa [hwnil] using (hwrites c.recvBuff).mpr hready
    · rw [← bind_assoc]
      refine (readWriteData_toured ho (hrnodup (hkeys ▸ hnodup)) (hwnodup' hwnodup)
        (fun p c hc => ?_) fun p c hc b => ?_).bind fun t ht => ?_
      · obtain ⟨ret, b, hr, -⟩ := CELLClient.recvData_eq (hwf p c hc).1 (sys.recv p)
        rw [hr]
        trivial
      · obtain ⟨ret, k, b', hr, -⟩ := CELLClient.sendDataReal_eq
          (c := { c with recvBuff := b }) (hwf p c hc).2 (sys.send p)
        rw [hr]
        trivial
      · refine ⟨by simp, fun hchange => ?_, ht.mono fun p hp c o es hc hR => ?_⟩
        · rcases ht.shrunk.marked with hmarked | ⟨hclients, -, -⟩
          · exact absurd (hchange.symm.trans hmarked) Bool.false_ne_true
          · exact hbak.trans (congrArg SortedMap.keys hclients).symm
        · obtain ⟨hreads, hwrites⟩ := heffect p c hp hc
          exact ServerState.netEffect_of hreads hwrites hR

end Round

end Windows

/-- The select server on Windows. From any state with a real backup set, one `DoNetEvents`
returns exactly if the sets have slots for all clients. It leaves a real backup set, and
what the `DoNetEvents` of the other systems leaves where that returns : the same clients,
each in the same state, in the same map, and the same events have been raised, up to their
order. -/
theorem windows_round_iff {w : ℕ} (hw : w ∈ [4, 8]) {s : ServerState} {others : List Ptr}
    (h : s.Owns others) {d : CELLSelectServer} (hd : s.srv.derived = .select d)
    (hcache : s.CacheReal d) (hnonempty : s.srv.clients.entries ≠ [])
    (hwf : ∀ p c, s.heap.get? p = some c → c.recvBuff.WF ∧ c.sendBuff.WF)
    {dw : Windows.CELLSelectServer w} (hcachew : Windows.CacheReal s dw)
    (arrange : Windows.Arrange) (sys : SysCalls) :
    ((∃ x, Windows.doNetEvents arrange s sys dw = .ok x) ↔
      s.srv.clients.size ≤ Windows.slots w) ∧
    ∀ b t dw', Windows.doNetEvents arrange s sys dw = .ok (b, t, dw') →
      Windows.CacheReal t dw' ∧ ∀ b' t', s.selectNetEvents sys d = .ok (b', t') → b = b' ∧
        (∀ p, t.heap.get? p = t'.heap.get? p) ∧ t.srv.clients = t'.srv.clients ∧
        t.srv.clientsBuff = t'.srv.clientsBuff ∧ t.events.Perm t'.events := by
  have hkind : s.srv.kind = .select := CELLServer.kind_eq_select.mpr ⟨d, hd⟩
  have hpos : 0 < w := by
    rcases List.mem_pair.mp hw with rfl | rfl <;> decide
  have hround (hfits : s.srv.clients.size ≤ Windows.slots w) (E : UB → Prop) :
      Exec.Sat E (Windows.doNetEvents arrange s sys dw) _ :=
    Windows.doNetEvents_toured hw h hkind hnonempty hcachew ((Windows.fits_iff hpos).mpr hfits)
      hwf
  have hiff : (∃ x, Windows.doNetEvents arrange s sys dw = .ok x) ↔
      s.srv.clients.size ≤ Windows.slots w := by
    refine ⟨fun ⟨x, hx⟩ => ?_, fun hfits => ?_⟩
    · by_contra hover
      rcases Windows.readSet_cases hw h hnonempty hcachew with ⟨hfits, -⟩ | ⟨-, hread⟩
      · exact hover ((Windows.fits_iff hpos).mp hfits)
      · rw [Windows.doNetEvents, hread] at hx
        cases hx
    · obtain ⟨x, hx, -⟩ := (hround hfits fun _ => False).exists_ok
      exact ⟨x, hx⟩
  refine ⟨hiff, fun b t dw' hrun => ?_⟩
  have hsat := hround (hiff.mp ⟨_, hrun⟩) fun _ => True
  rw [hrun] at hsat
  obtain ⟨hret, hcachet, htour⟩ := hsat
  refine ⟨hcachet, fun b' t' hrun' => ?_⟩
  have hsat' := ServerState.selectNetEvents_toured h hd
    (ServerState.Defined.of_allowed (E := fun _ => True) trivial trivial s sys) (Or.inr hcache)
  rw [hrun'] at hsat'
  obtain ⟨hret', d', hk, hcached⟩ := hsat'
  obtain ⟨-, htour'⟩ := hcached hcache
  -- the two sweeps start from one table and have one effect
  have htable : t.table = t'.table :=
    htour.swept.unique ServerState.netEffect_functional htour'.swept
  have hget : ∀ p, t.heap.get? p = t'.heap.get? p :=
    fun p => congrArg Prod.fst (congrFun htable p)
  have ho : s.resetChange.Owns others := ⟨h.nodup, h.live, h.keyed, h.registered⟩
  have hbool : b = b' := by
    rw [Bool.eq_iff_iff, ← Bool.not_eq_false, ← Bool.not_eq_false]
    exact not_congr (hret.trans hret'.symm)
  refine ⟨hbool, hget, SortedMap.eq_of_mem_iff fun x => ?_, ?_,
    perm_of_history NetEvent.pClient fun p => congrArg Prod.snd (congrFun htable p)⟩
  · rw [htour.mem_iff ho, htour'.mem_iff (h.selected hkind d').owns, hget]
    rfl
  · rw [htour.shrunk.clientsBuff, htour'.shrunk.clientsBuff]
    rfl

/-- One client with something to send, whose `recv` fails. -/
theorem windows_round_iff_one : ∃ (s : ServerState) (sys : SysCalls)
    (dw : Windows.CELLSelectServer 8) (b : Bool) (t : ServerState)
    (dw' : Windows.CELLSelectServer 8),
    s.srv.clients.entries = [(3, 0)] ∧
    Windows.doNetEvents (fun fds => ⟨fds.reverse, fds.reverse_perm⟩) s sys dw =
      .ok (b, t, dw') ∧ Windows.CacheReal t dw' := by
  let client : CELLClient :=
    { CELLClient.new 3 4 4 (fun _ => 0) fun _ => 0 with sendBuff := ⟨[7, 0, 0, 0], 1, 4, 0⟩ }
  let srv : CELLServer :=
    { CELLServer.new 1 0 (.select ⟨.zero, .zero, .zero, 0⟩) with
      clients := ⟨[(3, 0)], by decide⟩
      pc := .doNetEvents }
  let s : ServerState := ⟨⟨[some client]⟩, .zero, [], srv⟩
  let sys : SysCalls :=
    ⟨0, fun _ => true, .ready [3] [3], .events [], fun _ => .fail, fun _ => .accept 1⟩
  let dw : Windows.CELLSelectServer 8 := ⟨.zero, .zero, .zero, 0⟩
  have hlive : ∀ p c, s.heap.get? p = some c → p = 0 ∧ c = client := by
    intro p c hc
    rcases p with _ | p <;> simp_all [s, Heap.get?]
  have ho : s.Owns [] := by
    refine ⟨by decide, fun p => ?_, fun k p hp => ?_, fun x hx => absurd hx List.not_mem_nil⟩
    · rcases p with _ | p <;> simp [s, srv, Heap.get?, CELLServer.held, SortedMap.values,
        CELLServer.new]
    · obtain ⟨rfl, rfl⟩ := Prod.mk.inj (List.mem_singleton.mp hp)
      exact ⟨client, rfl, rfl⟩
  have hcachew : Windows.CacheReal s dw := fun hchange => absurd hchange (by decide)
  have hround := windows_round_iff (by decide) ho (d := ⟨.zero, .zero, .zero, 0⟩) rfl
    (fun hchange => absurd hchange (by decide)) (by decide) (fun p c hc => by
      obtain ⟨-, rfl⟩ := hlive p c hc
      exact ⟨⟨by decide, by decide, by decide, by decide⟩,
        ⟨by decide, by decide, by decide, by decide⟩⟩)
    hcachew (fun fds => ⟨fds.reverse, fds.reverse_perm⟩) sys
  obtain ⟨⟨b, t, dw'⟩, hrun⟩ := hround.1.mpr (by decide)
  exact ⟨s, sys, dw, b, t, dw', rfl, hrun, (hround.2 b t dw' hrun).1⟩

end CellNet
