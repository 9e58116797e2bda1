import CellNet.Buffer
import CellNet.Machine
import Mathlib.Data.Fintype.Basic
import Mathlib.Data.List.Perm.Basic
import Mathlib.Logic.Function.Basic

/-!
# The echo server on a completion port

The program of `IOCP`. It has `nClient` blocks with a buffer, posts an accept for each,
and then takes completions off the port : behind an accept or a send it posts a receive
with the same block, behind a receive it posts a send of the bytes received, and where a
client has gone it closes the socket and leaves the block.

The kernel and the clients are actions too. The kernel completes an operation that was
posted, with the bytes it has moved from or to the buffer, or lets it fail; the clients
connect, send and shut down as they like.

A block is used for one operation at a time, and for none once its socket is closed : this is
`Sound`, and it is why the program can tell from the type in a block which operation was
completed. A condition on the operations and on the entries of the port, each with its block and
its client, is an `Each`, and the lemmas of `Each` say how a step changes it.
-/

namespace CellNet

namespace Iocp

/-- `nClient`. -/
def nClient : ℕ :=
  10

instance neZeroClients : NeZero nClient :=
  ⟨by decide⟩

/-- `DATA_BUFF_SIZE`. -/
def DATA_BUFF_SIZE : ℕ :=
  1024

/-- `IO_TYPE`. -/
inductive IO_TYPE
  | ACCEPT
  | RECV
  | SEND
  deriving DecidableEq, Repr

/-- An `IO_DATA_BASE`. -/
structure IO_DATA_BASE where
  sockfd : SOCKET
  buffer : List UInt8
  length : ℕ
  /-- `none` for the zero in a new block. -/
  iotype : Option IO_TYPE
  deriving DecidableEq, Repr

/-- The client behind the socket of a block. -/
structure Peer where
  connected : Bool
  /-- What it has sent. -/
  sent : List UInt8
  /-- What the server has still to receive of it. -/
  incoming : List UInt8
  /-- What the server has sent back. -/
  echoed : List UInt8
  /-- It sends nothing more. -/
  shut : Bool
  deriving DecidableEq, Repr

/-- A client that has not connected. -/
def Peer.fresh : Peer :=
  ⟨false, [], [], [], false⟩

/-- The number of a block. -/
abbrev Slot := Fin nClient

/-- An operation that was posted, with the length in its `WSABUF`. -/
structure Op where
  slot : Slot
  type : IO_TYPE
  len : ℕ
  deriving DecidableEq, Repr

/-- An entry of the completion port : the bytes that were moved, or the error. -/
structure Completion where
  slot : Slot
  result : Except ℕ ℕ

/-- `WAIT_TIMEOUT`. -/
def WAIT_TIMEOUT : ℕ :=
  258

/-- `ERROR_NETNAME_DELETED`. -/
def ERROR_NETNAME_DELETED : ℕ :=
  64

/-- Where the program is. -/
inductive PC
  /-- In front of the `postAccept` of the block `n`. -/
  | posting (n : ℕ)
  /-- At the head of `while (true)`. -/
  | loop
  | ended
  deriving DecidableEq, Repr

/-- The server, its clients and the kernel. -/
structure Server where
  ioData : Slot → IO_DATA_BASE
  peers : Slot → Peer
  /-- The operations that are outstanding. -/
  pending : List Op
  /-- The completion port. -/
  completions : List Completion
  /-- The blocks whose `sockfd` was closed, in the order of the calls. -/
  closed : List Slot
  pc : PC

namespace Server

/-- The server in front of the first `postAccept`. -/
def new : Server :=
  ⟨fun _ => ⟨0, List.replicate DATA_BUFF_SIZE 0, 0, none⟩, fun _ => .fresh, [], [], [],
    .posting 0⟩

/-- The block `n` is changed. -/
def setIoData (s : Server) (n : Slot) (f : IO_DATA_BASE → IO_DATA_BASE) : Server :=
  { s with ioData := Function.update s.ioData n (f (s.ioData n)) }

/-- The client of the block `n` is changed. -/
def setPeer (s : Server) (n : Slot) (f : Peer → Peer) : Server :=
  { s with peers := Function.update s.peers n (f (s.peers n)) }

/-! ## The program -/

/-- An operation is posted with the block `n`, unless the call fails. -/
def post (s : Server) (n : Slot) (type : IO_TYPE) (len : ℕ) (posts : Bool) : Server :=
  let s := s.setIoData n fun io => { io with iotype := some type }
  if posts then { s with pending := s.pending ++ [⟨n, type, len⟩] } else s

/-- `postAccept`, where `socket` returns `sockfd`. -/
def postAccept (s : Server) (n : Slot) (sockfd : SOCKET) (posts : Bool) : Server :=
  (s.setIoData n fun io => { io with sockfd }).post n .ACCEPT 0 posts

/-- `postRecv`. -/
def postRecv (s : Server) (n : Slot) (posts : Bool) : Server :=
  s.post n .RECV DATA_BUFF_SIZE posts

/-- `postSend`. -/
def postSend (s : Server) (n : Slot) (posts : Bool) : Server :=
  s.post n .SEND (s.ioData n).length posts

/-- `closesocket(ioData[n].sockfd)`. -/
def closesocket (s : Server) (n : Slot) : Server :=
  { s with closed := s.closed ++ [n] }

/-- What is behind the loop : all sockets are closed, and the port. -/
def exit (s : Server) : Server :=
  { s with
    pending := []
    completions := []
    closed := s.closed ++ List.finRange nClient
    pc := .ended }

/-- The rest of a pass for an entry of the port. The calls of `CreateIoCompletionPort` and of
`WSARecv` or `WSASend` may fail. -/
def handle (s : Server) (c : Completion) (assoc posts : Bool) : Server :=
  match c.result with
  | .error err =>
    if err = WAIT_TIMEOUT then s
    else if err = ERROR_NETNAME_DELETED then s.closesocket c.slot
    else s.exit
  | .ok bytesTrans =>
    match (s.ioData c.slot).iotype with
    | some .ACCEPT => if assoc then s.postRecv c.slot posts else s.closesocket c.slot
    | some .RECV =>
      if bytesTrans = 0 then s.closesocket c.slot
      else (s.setIoData c.slot fun io => { io with length := bytesTrans }).postSend c.slot posts
    | some .SEND => if bytesTrans = 0 then s.closesocket c.slot else s.postRecv c.slot posts
    -- only a line is printed
    | none => s

/-! ## The kernel -/

/-- The operation at the position `i` is completed. -/
def complete (s : Server) (i : ℕ) (n : Slot) (result : Except ℕ ℕ) : Server :=
  { s with pending := s.pending.eraseIdx i, completions := s.completions ++ [⟨n, result⟩] }

/-- Bytes are received into the buffer of the block `n`. -/
def receive (s : Server) (n : Slot) (k : ℕ) : Server :=
  (s.setIoData n fun io =>
    { io with buffer := (s.peers n).incoming.take k ++ io.buffer.drop k }).setPeer n fun peer =>
      { peer with incoming := peer.incoming.drop k }

/-- Bytes are sent from the buffer of the block `n`. -/
def transmit (s : Server) (n : Slot) (k : ℕ) : Server :=
  s.setPeer n fun peer => { peer with echoed := peer.echoed ++ (s.ioData n).buffer.take k }

end Server

/-- What can happen. -/
inductive Act
  /-- The program posts the next accept. -/
  | post (sockfd : SOCKET) (posts : Bool)
  /-- A client connects, which completes the accept at the position `i`. -/
  | connect (i : ℕ)
  /-- The client of the block `n` sends. -/
  | send (n : Slot) (bytes : List UInt8)
  /-- The client of the block `n` sends nothing more. -/
  | shutdown (n : Slot)
  /-- The receive at the position `i` is completed with `k` bytes. -/
  | recv (i k : ℕ)
  /-- The send at the position `i` is completed with `k` bytes. -/
  | sent (i k : ℕ)
  /-- The operation at the position `i` fails. No operation fails with `WAIT_TIMEOUT`, which says
  that there is no entry. -/
  | abort (i err : ℕ)
  /-- A pass that finds nothing in time. -/
  | timeout
  /-- A pass in which the port itself fails. -/
  | fail
  /-- A pass that takes the entry at the position `j` off the port. -/
  | dequeue (j : ℕ) (assoc posts : Bool)
  deriving DecidableEq, Repr

namespace Server

/-- A receive completes with some of what has arrived, at most what it has room for, and with
nothing at the end. -/
def CanRecv (peer : Peer) (len k : ℕ) : Prop :=
  (0 < k ∧ k ≤ len ∧ k ≤ peer.incoming.length) ∨
    (k = 0 ∧ peer.shut = true ∧ peer.incoming = [])

instance (peer : Peer) (len k : ℕ) : Decidable (CanRecv peer len k) :=
  inferInstanceAs (Decidable (_ ∨ _))

/-- One action. -/
def act (s : Server) : Act → Option Server
  | .post sockfd posts =>
    match s.pc with
    | .posting n =>
      if h : n < nClient then
        some { s.postAccept ⟨n, h⟩ sockfd posts with pc := .posting (n + 1) }
      else some { s with pc := .loop }
    | .loop | .ended => none
  | .connect i => s.pending[i]?.bind fun op =>
      if op.type = .ACCEPT then
        some ((s.setPeer op.slot fun peer => { peer with connected := true }).complete i op.slot
          (.ok 0))
      else none
  | .send n bytes =>
    if (s.peers n).connected ∧ ¬(s.peers n).shut then
      some (s.setPeer n fun peer =>
        { peer with sent := peer.sent ++ bytes, incoming := peer.incoming ++ bytes })
    else none
  | .shutdown n =>
    if (s.peers n).connected then some (s.setPeer n fun peer => { peer with shut := true })
    else none
  | .recv i k => s.pending[i]?.bind fun op =>
      if op.type = .RECV ∧ CanRecv (s.peers op.slot) op.len k then
        some ((s.receive op.slot k).complete i op.slot (.ok k))
      else none
  | .sent i k => s.pending[i]?.bind fun op =>
      if op.type = .SEND ∧ k ≤ op.len then
        some ((s.transmit op.slot k).complete i op.slot (.ok k))
      else none
  | .abort i err => s.pending[i]?.bind fun op =>
      if err = WAIT_TIMEOUT then none else some (s.complete i op.slot (.error err))
  | .timeout => if s.pc = .loop then some s else none
  | .fail => if s.pc = .loop then some s.exit else none
  | .dequeue j assoc posts =>
    if s.pc = .loop then
      s.completions[j]?.map fun c =>
        handle { s with completions := s.completions.eraseIdx j } c assoc posts
    else none

end Server

/-- The echo server. -/
def iocp : Machine Server Act Empty :=
  .ofStep (· = .new) Server.act

namespace Server

variable {s t : Server} {a : Act}

/-! ## Blocks in use -/

/-- The blocks with an operation, outstanding or completed. -/
def live (s : Server) : List Slot :=
  s.pending.map Op.slot ++ s.completions.map Completion.slot

theorem slot_mem_live {i : ℕ} {op : Op} (hi : s.pending[i]? = some op) : op.slot ∈ s.live :=
  List.mem_append_left _ (List.mem_map.mpr ⟨op, List.mem_of_getElem? hi, rfl⟩)

theorem live_dequeue {j : ℕ} {c : Completion} (hj : s.completions[j]? = some c) :
    (c.slot :: live { s with completions := s.completions.eraseIdx j }).Perm s.live := by
  obtain ⟨hlt, rfl⟩ := List.getElem?_eq_some_iff.mp hj
  have hperm := (List.getElem_cons_eraseIdx_perm hlt).map Completion.slot
  exact List.perm_middle.symm.trans (hperm.append_left _)

/-- The other outstanding operations belong to other blocks. -/
theorem slot_ne_of_complete (hs : s.live.Nodup) {i : ℕ} {op : Op} (hi : s.pending[i]? = some op) :
    (∀ op' ∈ s.pending.eraseIdx i, op'.slot ≠ op.slot) ∧
      ∀ c ∈ s.completions, c.slot ≠ op.slot := by
  obtain ⟨hlt, rfl⟩ := List.getElem?_eq_some_iff.mp hi
  have hperm := ((List.getElem_cons_eraseIdx_perm hlt).map Op.slot).append_right
    (s.completions.map Completion.slot)
  have hnodup := hperm.nodup_iff.mpr hs
  rw [List.map_cons, List.cons_append, List.nodup_cons, List.mem_append, not_or] at hnodup
  obtain ⟨⟨hpending, hcompletions⟩, -⟩ := hnodup
  exact ⟨fun op' hop heq => hpending (List.mem_map.mpr ⟨op', hop, heq⟩),
    fun c hc heq => hcompletions (List.mem_map.mpr ⟨c, hc, heq⟩)⟩

/-- The block `n` and its client are replaced. -/
def set (s : Server) (n : Slot) (io : IO_DATA_BASE) (peer : Peer) : Server :=
  { s with
    ioData := Function.update s.ioData n io
    peers := Function.update s.peers n peer }

/-- Where an operation is completed, its block stays in use. -/
theorem live_complete {i : ℕ} {op : Op} (hi : s.pending[i]? = some op) (io : IO_DATA_BASE)
    (peer : Peer) (r : Except ℕ ℕ) :
    ((s.set op.slot io peer).complete i op.slot r).live.Perm s.live := by
  obtain ⟨hlt, rfl⟩ := List.getElem?_eq_some_iff.mp hi
  have hperm := (List.getElem_cons_eraseIdx_perm hlt).map Op.slot
  rw [live, live, complete, set, List.map_append, List.map_singleton, ← List.append_assoc]
  exact (List.perm_append_singleton _ _).trans (hperm.append_right _)

theorem set_self (s : Server) (n : Slot) : s.set n (s.ioData n) (s.peers n) = s := by
  rw [set, Function.update_eq_self, Function.update_eq_self]

theorem setPeer_eq (s : Server) (n : Slot) (f : Peer → Peer) :
    s.setPeer n f = s.set n (s.ioData n) (f (s.peers n)) := by
  rw [setPeer, set, Function.update_eq_self]

theorem setIoData_eq (s : Server) (n : Slot) (f : IO_DATA_BASE → IO_DATA_BASE) :
    s.setIoData n f = s.set n (f (s.ioData n)) (s.peers n) := by
  rw [setIoData, set, Function.update_eq_self]

theorem set_peers (s : Server) (n : Slot) (io : IO_DATA_BASE) (peer : Peer) :
    (s.set n io peer).peers n = peer :=
  Function.update_self ..

theorem set_ioData (s : Server) (n : Slot) (io : IO_DATA_BASE) (peer : Peer) :
    (s.set n io peer).ioData n = io :=
  Function.update_self ..

theorem set_set (s : Server) (n : Slot) (io io' : IO_DATA_BASE) (peer peer' : Peer) :
    (s.set n io peer).set n io' peer' = s.set n io' peer' := by
  rw [set, set, set]
  dsimp only
  rw [Function.update_idem, Function.update_idem]

theorem receive_eq (s : Server) (n : Slot) (k : ℕ) : s.receive n k = s.set n
    { s.ioData n with buffer := (s.peers n).incoming.take k ++ (s.ioData n).buffer.drop k }
    { s.peers n with incoming := (s.peers n).incoming.drop k } := by
  rw [receive, setIoData_eq, setPeer_eq, set_set, set_peers, set_ioData]

/-- A post replaces the type of the block, and is outstanding if the call succeeds. -/
theorem post_eq (s : Server) (n : Slot) (type : IO_TYPE) (len : ℕ) (posts : Bool) :
    s.post n type len posts =
      if posts then
        { s.set n { s.ioData n with iotype := some type } (s.peers n) with
          pending := s.pending ++ [⟨n, type, len⟩] }
      else s.set n { s.ioData n with iotype := some type } (s.peers n) := by
  rw [post, setIoData_eq]
  rfl

/-! ## Local conditions -/

section Each

variable (P : IO_DATA_BASE → Peer → Op → Prop) (Q : IO_DATA_BASE → Peer → Except ℕ ℕ → Prop)

/-- Each outstanding operation has `P` and each entry of the port has `Q`, of its block and
the client of it. -/
structure Each (s : Server) : Prop where
  pending : ∀ op ∈ s.pending, P (s.ioData op.slot) (s.peers op.slot) op
  completions : ∀ c ∈ s.completions, Q (s.ioData c.slot) (s.peers c.slot) c.result

variable {P Q}

/-- An operation is completed, and its block and client are replaced. -/
theorem Each.complete (hs : s.Each P Q) (hlive : s.live.Nodup) {i : ℕ} {op : Op}
    (hi : s.pending[i]? = some op) {io : IO_DATA_BASE} {peer : Peer} {r : Except ℕ ℕ}
    (hQ : Q io peer r) : ((s.set op.slot io peer).complete i op.slot r).Each P Q := by
  obtain ⟨hpending, hcompletions⟩ := slot_ne_of_complete hlive hi
  refine ⟨fun op' hop => ?_, fun c hc => ?_⟩
  · have hne := hpending op' hop
    simp only [Server.complete, Server.set, Function.update_of_ne hne]
    exact hs.pending op' (List.mem_of_mem_eraseIdx hop)
  · rcases List.mem_append.mp hc with hc | hc
    · simp only [Server.complete, Server.set, Function.update_of_ne (hcompletions c hc)]
      exact hs.completions c hc
    · obtain rfl := List.mem_singleton.mp hc
      simpa only [Server.complete, Server.set, Function.update_self] using hQ

/-- An entry is taken off the port. -/
theorem Each.dequeue (hs : s.Each P Q) (j : ℕ) :
    Each P Q { s with completions := s.completions.eraseIdx j } :=
  ⟨hs.pending, fun c hc => hs.completions c (List.mem_of_mem_eraseIdx hc)⟩

/-- A block without an operation is replaced, and an operation posted with it. -/
theorem Each.post (hs : s.Each P Q) {n : Slot} (hn : n ∉ s.live) {io : IO_DATA_BASE}
    {type : IO_TYPE} {len : ℕ} (hP : P io (s.peers n) ⟨n, type, len⟩) :
    Each P Q { s.set n io (s.peers n) with pending := s.pending ++ [⟨n, type, len⟩] } := by
  rw [live, List.mem_append, not_or] at hn
  refine ⟨fun op hop => ?_, fun c hc => ?_⟩
  · rcases List.mem_append.mp hop with hop | hop
    · have hne : op.slot ≠ n := fun heq => hn.1 (List.mem_map.mpr ⟨op, hop, heq⟩)
      simp only [set, Function.update_of_ne hne]
      exact hs.pending op hop
    · obtain rfl := List.mem_singleton.mp hop
      simpa only [set, Function.update_self] using hP
  · have hne : c.slot ≠ n := fun heq => hn.2 (List.mem_map.mpr ⟨c, hc, heq⟩)
    simp only [set, Function.update_of_ne hne]
    exact hs.completions c hc

/-- A block without an operation is replaced. -/
theorem Each.set (hs : s.Each P Q) {n : Slot} (hn : n ∉ s.live) (io : IO_DATA_BASE) :
    (s.set n io (s.peers n)).Each P Q := by
  rw [live, List.mem_append, not_or] at hn
  refine ⟨fun op hop => ?_, fun c hc => ?_⟩
  · have hne : op.slot ≠ n := fun heq => hn.1 (List.mem_map.mpr ⟨op, hop, heq⟩)
    simp only [Server.set, Function.update_of_ne hne]
    exact hs.pending op hop
  · have hne : c.slot ≠ n := fun heq => hn.2 (List.mem_map.mpr ⟨c, hc, heq⟩)
    simp only [Server.set, Function.update_of_ne hne]
    exact hs.completions c hc

/-- A client is replaced by one that keeps the conditions. -/
theorem Each.setPeer (hs : s.Each P Q) {n : Slot} {f : Peer → Peer}
    (hP : ∀ io op, P io (s.peers n) op → P io (f (s.peers n)) op)
    (hQ : ∀ io r, Q io (s.peers n) r → Q io (f (s.peers n)) r) : (s.setPeer n f).Each P Q := by
  refine ⟨fun op hop => ?_, fun c hc => ?_⟩
  · have hold := hs.pending op hop
    by_cases heq : op.slot = n
    · subst heq
      simpa only [Server.setPeer, Function.update_self] using hP _ op hold
    · simpa only [Server.setPeer, Function.update_of_ne heq] using hold
  · have hold := hs.completions c hc
    by_cases heq : c.slot = n
    · subst heq
      simpa only [Server.setPeer, Function.update_self] using hQ _ _ hold
    · simpa only [Server.setPeer, Function.update_of_ne heq] using hold

end Each

/-! ## Steps -/

/-- How the kernel completes `op`, the operation at the position `i` : what becomes of the
block and of the client, and the entry it adds to the port. -/
inductive Completed (s : Server) (i : ℕ) (op : Op) :
    Act → IO_DATA_BASE → Peer → Except ℕ ℕ → Prop
  | connect (htype : op.type = .ACCEPT) :
    Completed s i op (.connect i) (s.ioData op.slot)
      { s.peers op.slot with connected := true } (.ok 0)
  | recv {k : ℕ} (htype : op.type = .RECV) (hcan : CanRecv (s.peers op.slot) op.len k) :
    Completed s i op (.recv i k)
      { s.ioData op.slot with
        buffer := (s.peers op.slot).incoming.take k ++ (s.ioData op.slot).buffer.drop k }
      { s.peers op.slot with incoming := (s.peers op.slot).incoming.drop k } (.ok k)
  | sent {k : ℕ} (htype : op.type = .SEND) (hk : k ≤ op.len) :
    Completed s i op (.sent i k) (s.ioData op.slot)
      { s.peers op.slot with
        echoed := (s.peers op.slot).echoed ++ (s.ioData op.slot).buffer.take k } (.ok k)
  | abort {err : ℕ} (herr : err ≠ WAIT_TIMEOUT) :
    Completed s i op (.abort i err) (s.ioData op.slot) (s.peers op.slot) (.error err)

/-- A pass for the entry `c` posts an operation. -/
def posts (s : Server) (c : Completion) (assoc : Bool) : Bool :=
  match c.result, (s.ioData c.slot).iotype with
  | .ok _, some .ACCEPT => assoc
  | .ok k, some .RECV | .ok k, some .SEND => k != 0
  | _, _ => false

/-- What a pass makes of the entry `c`, once it is off the port. -/
inductive Handled (s : Server) (c : Completion) (assoc ok : Bool) : Server → Prop
  | left (h : c.result = .error WAIT_TIMEOUT ∨ (s.ioData c.slot).iotype = none) :
    Handled s c assoc ok s
  | closesocket (h : s.posts c assoc = false) : Handled s c assoc ok (s.closesocket c.slot)
  | exit (h : s.posts c assoc = false) : Handled s c assoc ok s.exit
  /-- A receive is posted, behind an accept or a send. -/
  | postRecv {k : ℕ} (h : s.posts c assoc = true) (hresult : c.result = .ok k)
    (htype : (s.ioData c.slot).iotype = some .ACCEPT ∨
      (s.ioData c.slot).iotype = some .SEND ∧ k ≠ 0) :
    Handled s c assoc ok (s.postRecv c.slot ok)
  /-- A send is posted, behind a receive. -/
  | postSend {k : ℕ} (h : s.posts c assoc = true) (hresult : c.result = .ok k)
    (htype : (s.ioData c.slot).iotype = some .RECV) :
    Handled s c assoc ok
      ((s.setIoData c.slot fun io => { io with length := k }).postSend c.slot ok)

/-- What an action does. -/
inductive Stepped (s : Server) : Act → Server → Prop
  | posted {n : ℕ} {sockfd : SOCKET} {posts : Bool} (hpc : s.pc = .posting n) (h : n < nClient) :
    Stepped s (.post sockfd posts)
      { s.postAccept ⟨n, h⟩ sockfd posts with pc := .posting (n + 1) }
  | started {n : ℕ} {sockfd : SOCKET} {posts : Bool} (hpc : s.pc = .posting n)
    (h : ¬n < nClient) :
    Stepped s (.post sockfd posts) { s with pc := .loop }
  | completed {a : Act} {i : ℕ} {op : Op} {io : IO_DATA_BASE} {peer : Peer} {r : Except ℕ ℕ}
    (hi : s.pending[i]? = some op) (h : s.Completed i op a io peer r) :
    Stepped s a ((s.set op.slot io peer).complete i op.slot r)
  | send {n : Slot} {bytes : List UInt8} (hconnected : (s.peers n).connected = true) :
    Stepped s (.send n bytes) (s.setPeer n fun peer =>
      { peer with sent := peer.sent ++ bytes, incoming := peer.incoming ++ bytes })
  | shutdown {n : Slot} (hconnected : (s.peers n).connected = true) :
    Stepped s (.shutdown n) (s.setPeer n fun peer => { peer with shut := true })
  | timeout : Stepped s .timeout s
  | fail (hpc : s.pc = .loop) : Stepped s .fail s.exit
  | dequeue {j : ℕ} {c : Completion} {assoc posts : Bool} {t : Server} (hpc : s.pc = .loop)
    (hj : s.completions[j]? = some c)
    (h : Handled { s with completions := s.completions.eraseIdx j } c assoc posts t) :
    Stepped s (.dequeue j assoc posts) t

theorem handle_handled (s : Server) (c : Completion) (assoc ok : Bool) :
    s.Handled c assoc ok (s.handle c assoc ok) := by
  unfold handle
  cases hresult : c.result with
  | error err =>
    have hnone : s.posts c assoc = false := by rw [posts, hresult]
    dsimp only
    split
    · rename_i herr
      exact .left (Or.inl (by rw [hresult, herr]))
    · split
      · exact .closesocket hnone
      · exact .exit hnone
  | ok bytesTrans =>
    cases htype : (s.ioData c.slot).iotype with
    | none => exact .left (Or.inr htype)
    | some type =>
      cases type with
      | ACCEPT =>
        have hposts : s.posts c assoc = assoc := by rw [posts, hresult, htype]
        dsimp only
        split
        · rename_i hassoc
          exact .postRecv (hposts.trans hassoc) hresult (Or.inl htype)
        · rename_i hassoc
          exact .closesocket (hposts.trans (Bool.eq_false_iff.mpr hassoc))
      | RECV =>
        have hposts : s.posts c assoc = (bytesTrans != 0) := by rw [posts, hresult, htype]
        dsimp only
        split
        · rename_i hzero
          exact .closesocket (hposts.trans (bne_eq_false_iff_eq.mpr hzero))
        · rename_i hne
          exact .postSend (hposts.trans (bne_iff_ne.mpr hne)) hresult htype
      | SEND =>
        have hposts : s.posts c assoc = (bytesTrans != 0) := by rw [posts, hresult, htype]
        dsimp only
        split
        · rename_i hzero
          exact .closesocket (hposts.trans (bne_eq_false_iff_eq.mpr hzero))
        · rename_i hne
          exact .postRecv (hposts.trans (bne_iff_ne.mpr hne)) hresult (Or.inr ⟨htype, hne⟩)

theorem stepped (h : s.act a = some t) : s.Stepped a t := by
  cases a with
  | post sockfd posts =>
    rw [act] at h
    split at h
    · split at h
      · obtain rfl := Option.some.inj h
        exact .posted ‹_› ‹_›
      · obtain rfl := Option.some.inj h
        exact .started ‹_› ‹_›
    · cases h
    · cases h
  | connect i =>
    obtain ⟨op, hi, h⟩ := Option.bind_eq_some_iff.mp h
    split at h
    · obtain rfl := Option.some.inj h
      rw [setPeer_eq]
      exact .completed hi (.connect ‹_›)
    · cases h
  | send n bytes =>
    rw [act] at h
    split at h
    · obtain rfl := Option.some.inj h
      exact .send (And.left ‹_›)
    · cases h
  | shutdown n =>
    rw [act] at h
    split at h
    · obtain rfl := Option.some.inj h
      exact .shutdown ‹_›
    · cases h
  | recv i k =>
    obtain ⟨op, hi, h⟩ := Option.bind_eq_some_iff.mp h
    split at h
    · rename_i hcan
      obtain rfl := Option.some.inj h
      rw [receive_eq]
      exact .completed hi (.recv hcan.1 hcan.2)
    · cases h
  | sent i k =>
    obtain ⟨op, hi, h⟩ := Option.bind_eq_some_iff.mp h
    split at h
    · rename_i hcan
      obtain rfl := Option.some.inj h
      rw [transmit, setPeer_eq]
      exact .completed hi (.sent hcan.1 hcan.2)
    · cases h
  | abort i err =>
    obtain ⟨op, hi, h⟩ := Option.bind_eq_some_iff.mp h
    split at h
    · cases h
    · rename_i herr
      obtain rfl := Option.some.inj h
      have hdone := Stepped.completed hi (.abort herr : s.Completed i op (.abort i err) _ _ _)
      rw [set_self] at hdone
      exact hdone
  | timeout =>
    rw [act] at h
    split at h
    · obtain rfl := Option.some.inj h
      exact .timeout
    · cases h
  | fail =>
    rw [act] at h
    split at h
    · obtain rfl := Option.some.inj h
      exact .fail ‹_›
    · cases h
  | dequeue j assoc posts =>
    rw [act] at h
    split at h
    · obtain ⟨c, hj, rfl⟩ := Option.map_eq_some_iff.mp h
      exact .dequeue ‹_› hj (handle_handled _ c assoc posts)
    · cases h

/-! ## What the program keeps -/

/-- An outstanding operation is the one its block was last posted with, and an accept has no
client yet. -/
def OpOk (io : IO_DATA_BASE) (peer : Peer) (op : Op) : Prop :=
  io.iotype = some op.type ∧ (op.type = .ACCEPT → peer.connected = false) ∧
    (op.type = .RECV → op.len = DATA_BUFF_SIZE) ∧ (op.type = .SEND → op.len = io.length)

/-- An entry of the port is that of an operation, and a receive fits into the buffer. -/
structure EntryOk (io : IO_DATA_BASE) (_ : Peer) (r : Except ℕ ℕ) : Prop where
  type : io.iotype ≠ none
  error : r ≠ .error WAIT_TIMEOUT
  recv : ∀ k, r = .ok k → io.iotype = some .RECV → k ≤ DATA_BUFF_SIZE

/-- The `postAccept` of the block has been. -/
def Posted (s : Server) (n : Slot) : Prop :=
  ∀ m, s.pc = .posting m → n.val < m

theorem posted_of_loop (hpc : s.pc = .loop) (n : Slot) : s.Posted n := by
  intro m hm
  rw [hpc] at hm
  cases hm

theorem ne_ended_of_loop (hpc : s.pc = .loop) : s.pc ≠ .ended := by
  rw [hpc]
  exact PC.noConfusion

theorem ne_ended_of_posting {n : ℕ} (hpc : s.pc = .posting n) : s.pc ≠ .ended := by
  rw [hpc]
  exact PC.noConfusion

/-- The invariant of the server. -/
structure Sound (s : Server) : Prop where
  each : s.Each OpOk EntryOk
  buffer : ∀ n, (s.ioData n).buffer.length = DATA_BUFF_SIZE ∧ (s.ioData n).length ≤ DATA_BUFF_SIZE
  /-- Up to the end, a block is used for one operation at a time, and for none once its
  socket is closed. -/
  used : s.pc ≠ .ended → (s.live ++ s.closed).Nodup ∧ ∀ n ∈ s.live ++ s.closed, s.Posted n
  ended : s.pc = .ended → s.live = []
  fresh : ∀ n m, s.pc = .posting m → m ≤ n.val → s.peers n = .fresh

theorem Sound.live (hs : s.Sound) : s.live.Nodup := by
  by_cases hpc : s.pc = .ended
  · rw [hs.ended hpc]
    exact List.nodup_nil
  · exact (List.nodup_append.mp (hs.used hpc).1).1

theorem Sound.new : Sound .new := by
  refine ⟨⟨fun _ h => absurd h List.not_mem_nil, fun _ h => absurd h List.not_mem_nil⟩,
    fun n => ⟨List.length_replicate, Nat.zero_le _⟩, fun _ => ⟨List.nodup_nil, ?_⟩, fun _ => rfl,
    fun _ _ _ _ => rfl⟩
  exact fun _ h => absurd h List.not_mem_nil

/-- The operation of a block is completed. -/
theorem Sound.completed (hs : s.Sound) {i : ℕ} {op : Op} {io : IO_DATA_BASE} {peer : Peer}
    {r : Except ℕ ℕ} (hi : s.pending[i]? = some op) (h : s.Completed i op a io peer r) :
    ((s.set op.slot io peer).complete i op.slot r).Sound := by
  have hlive := live_complete hi io peer r
  obtain ⟨htype, -, hrecv, -⟩ := hs.each.pending op (List.mem_of_getElem? hi)
  have hio : EntryOk io peer r ∧ io.buffer.length = DATA_BUFF_SIZE ∧
      io.length ≤ DATA_BUFF_SIZE := by
    obtain ⟨hbuffer, hlength⟩ := hs.buffer op.slot
    cases h with
    | connect ht =>
      refine ⟨⟨htype ▸ Option.some_ne_none _, nofun, fun k hk _ => ?_⟩, hbuffer, hlength⟩
      rw [← Except.ok.inj hk]
      exact Nat.zero_le _
    | @recv k ht hcan =>
      have hk : k ≤ DATA_BUFF_SIZE ∧ k ≤ (s.peers op.slot).incoming.length := by
        rw [← hrecv ht]
        rcases hcan with ⟨-, hle, hle'⟩ | ⟨rfl, -, -⟩
        · exact ⟨hle, hle'⟩
        · exact ⟨Nat.zero_le _, Nat.zero_le _⟩
      refine ⟨⟨htype ▸ Option.some_ne_none _, nofun, fun k' hk' _ => ?_⟩, ?_, hlength⟩
      · rw [← Except.ok.inj hk']
        exact hk.1
      · rw [List.length_append, List.length_take, List.length_drop, hbuffer]
        omega
    | sent ht =>
      refine ⟨⟨htype ▸ Option.some_ne_none _, nofun, fun k hk hRECV => ?_⟩, hbuffer, hlength⟩
      rw [htype, ht] at hRECV
      cases hRECV
    | abort herr =>
      refine ⟨⟨htype ▸ Option.some_ne_none _, fun h => herr (Except.error.inj h), fun k hk => ?_⟩,
        hbuffer, hlength⟩
      cases hk
  refine ⟨hs.each.complete hs.live hi hio.1, fun n => ?_, fun hpc => ?_, fun hpc => ?_,
    fun n m hpc hle => ?_⟩
  · by_cases hn : n = op.slot
    · subst hn
      rw [complete, set_ioData]
      exact hio.2
    · simp only [complete, set, Function.update_of_ne hn]
      exact hs.buffer n
  · obtain ⟨hnodup, hposted⟩ := hs.used hpc
    have hperm := hlive.append_right s.closed
    exact ⟨hperm.nodup_iff.mpr hnodup, fun n hn => hposted n (hperm.mem_iff.mp hn)⟩
  · rw [hs.ended hpc] at hlive
    exact List.perm_nil.mp hlive
  · have hne : s.pc ≠ .ended := by
      rw [show s.pc = .posting m from hpc]
      exact PC.noConfusion
    have hlt := (hs.used hne).2 op.slot (List.mem_append_left _ (slot_mem_live hi)) m hpc
    have hn : n ≠ op.slot := fun heq => absurd hlt (Nat.not_lt.mpr (heq ▸ hle))
    simp only [complete, set, Function.update_of_ne hn]
    exact hs.fresh n m hpc hle

/-- A block that is in no use is replaced, and maybe an operation posted with it. -/
theorem Sound.post (hs : s.Sound) {n : Slot} (hn : n ∉ s.live ++ s.closed)
    (hposted : s.Posted n) (hpc : s.pc ≠ .ended) (io : IO_DATA_BASE) (type : IO_TYPE) (len : ℕ)
    (posts : Bool) (hio : OpOk io (s.peers n) ⟨n, type, len⟩)
    (hbuffer : io.buffer.length = DATA_BUFF_SIZE ∧ io.length ≤ DATA_BUFF_SIZE) :
    Sound (if posts then
      { s.set n io (s.peers n) with pending := s.pending ++ [⟨n, type, len⟩] }
      else s.set n io (s.peers n)) := by
  obtain ⟨hnodup, hall⟩ := hs.used hpc
  have hlive : n ∉ s.live := fun h => hn (List.mem_append_left _ h)
  have hbuffers : ∀ m, ((s.set n io (s.peers n)).ioData m).buffer.length = DATA_BUFF_SIZE ∧
      ((s.set n io (s.peers n)).ioData m).length ≤ DATA_BUFF_SIZE := by
    intro m
    by_cases hm : m = n
    · subst hm
      rw [set_ioData]
      exact hbuffer
    · simp only [set, Function.update_of_ne hm]
      exact hs.buffer m
  have hpeers : (s.set n io (s.peers n)).peers = s.peers := Function.update_eq_self ..
  cases posts with
  | false =>
    refine ⟨hs.each.set hlive io, hbuffers, hs.used, hs.ended, ?_⟩
    rw [if_neg Bool.false_ne_true, hpeers]
    exact hs.fresh
  | true =>
    rw [if_pos rfl]
    refine ⟨hs.each.post hlive hio, hbuffers, fun _ => ?_, fun h => absurd h hpc,
      hpeers.symm ▸ hs.fresh⟩
    have hperm : (Server.live { s.set n io (s.peers n) with
        pending := s.pending ++ [⟨n, type, len⟩] } ++ s.closed).Perm
        (n :: (s.live ++ s.closed)) := by
      refine List.Perm.append_right s.closed (?_ : List.Perm _ (n :: s.live))
      rw [Server.live, List.map_append, List.map_singleton, List.append_assoc]
      exact List.perm_middle
    refine ⟨hperm.nodup_iff.mpr (List.nodup_cons.mpr ⟨hn, hnodup⟩), fun m hm => ?_⟩
    rcases List.mem_cons.mp (hperm.mem_iff.mp hm) with rfl | hm
    · exact hposted
    · exact hall m hm

/-- The sockets are closed behind the loop. -/
theorem Sound.exit (hs : s.Sound) : s.exit.Sound :=
  ⟨⟨fun _ h => absurd h List.not_mem_nil, fun _ h => absurd h List.not_mem_nil⟩, hs.buffer,
    fun h => absurd rfl h, fun _ => rfl, fun _ _ h => PC.noConfusion h⟩

/-- An entry is taken off the port, and its block is in no use. -/
theorem Sound.dequeue (hs : s.Sound) (hpc : s.pc = .loop) {j : ℕ} {c : Completion}
    (hj : s.completions[j]? = some c) :
    Sound { s with completions := s.completions.eraseIdx j } ∧
      c.slot ∉ Server.live { s with completions := s.completions.eraseIdx j } ++ s.closed := by
  have hne := ne_ended_of_loop hpc
  obtain ⟨hnodup, hall⟩ := hs.used hne
  have hperm := (live_dequeue hj).append_right s.closed
  obtain ⟨hnotin, hnodup'⟩ := List.nodup_cons.mp (hperm.nodup_iff.mpr hnodup)
  refine ⟨⟨hs.each.dequeue j, hs.buffer, fun _ => ⟨hnodup', fun n hn => ?_⟩,
    fun h => absurd h hne, hs.fresh⟩, hnotin⟩
  exact hall n (hperm.mem_iff.mp (List.mem_cons_of_mem _ hn))

/-- A pass for the entry `c` of a block that is in no use. -/
theorem Sound.handled (hs : s.Sound) (hpc : s.pc = .loop) {c : Completion}
    (hn : c.slot ∉ s.live ++ s.closed) (hentry : ∀ k, c.result = .ok k →
      (s.ioData c.slot).iotype = some .RECV → k ≤ DATA_BUFF_SIZE)
    {assoc ok : Bool} (h : s.Handled c assoc ok t) : t.Sound := by
  have hne := ne_ended_of_loop hpc
  have hposted := posted_of_loop hpc c.slot
  cases h with
  | left => exact hs
  | closesocket =>
    obtain ⟨hnodup, hall⟩ := hs.used hne
    refine ⟨⟨hs.each.pending, hs.each.completions⟩, hs.buffer, fun _ => ?_,
      fun h => absurd h hne, hs.fresh⟩
    have hperm : (s.live ++ (s.closed ++ [c.slot])).Perm (c.slot :: (s.live ++ s.closed)) := by
      rw [← List.append_assoc]
      exact List.perm_append_singleton _ _
    refine ⟨hperm.nodup_iff.mpr (List.nodup_cons.mpr ⟨hn, hnodup⟩), fun m hm => ?_⟩
    rcases List.mem_cons.mp (hperm.mem_iff.mp hm) with rfl | hm
    · exact hposted
    · exact hall m hm
  | exit => exact hs.exit
  | @postRecv k _ hresult htype =>
    rw [postRecv, post_eq]
    refine hs.post hn hposted hne { s.ioData c.slot with iotype := some .RECV } .RECV
      DATA_BUFF_SIZE ok ⟨rfl, fun h => ?_, fun _ => rfl, fun h => ?_⟩ (hs.buffer c.slot)
    · cases h
    · cases h
  | @postSend k _ hresult htype =>
    rw [postSend, post_eq, setIoData_eq, set_ioData, set_peers, set_set]
    refine hs.post hn hposted hne { s.ioData c.slot with length := k, iotype := some .SEND } .SEND
      k ok ⟨rfl, fun h => ?_, fun h => ?_, fun _ => rfl⟩
      ⟨(hs.buffer c.slot).1, hentry k hresult htype⟩
    · cases h
    · cases h

/-- A client that has connected is changed. -/
theorem Sound.setPeer (hs : s.Sound) {n : Slot} (hn : (s.peers n).connected = true)
    (f : Peer → Peer) : (s.setPeer n f).Sound := by
  refine ⟨hs.each.setPeer (fun io op h => ⟨h.1, fun ht => ?_, h.2.2⟩)
    fun _ _ h => ⟨h.type, h.error, h.recv⟩, hs.buffer, hs.used, hs.ended, fun n' m hpc hle => ?_⟩
  · exact absurd (hn.symm.trans (h.2.1 ht)) Bool.noConfusion
  · have hfresh := hs.fresh n' m hpc hle
    have hne : n' ≠ n := by
      rintro rfl
      rw [hfresh] at hn
      cases hn
    simp only [Server.setPeer, Function.update_of_ne hne]
    exact hfresh

theorem Sound.step (hs : s.Sound) (h : s.act a = some t) : t.Sound := by
  cases stepped h with
  | @posted n sockfd posts hpc hlt =>
    have hne := ne_ended_of_posting hpc
    obtain ⟨hnodup, hall⟩ := hs.used hne
    have hn : (⟨n, hlt⟩ : Slot) ∉ s.live ++ s.closed :=
      fun hmem => absurd (hall _ hmem n hpc) (Nat.lt_irrefl n)
    -- with the place moved on, the block is one of those that are posted
    have hs' : Sound { s with pc := .posting (n + 1) } := by
      refine ⟨⟨hs.each.pending, hs.each.completions⟩, hs.buffer,
        fun _ => ⟨hnodup, fun m hm k hk => ?_⟩, fun h => PC.noConfusion h,
        fun m k hk hle => ?_⟩
      · obtain rfl := PC.posting.inj hk
        exact Nat.lt_succ_of_lt (hall m hm n hpc)
      · obtain rfl := PC.posting.inj hk
        exact hs.fresh m n hpc (Nat.le_of_succ_le hle)
    rw [postAccept, post_eq, setIoData_eq, set_ioData, set_peers, set_set]
    have hpost := hs'.post (n := ⟨n, hlt⟩) hn (fun m hm => ?_) PC.noConfusion
      { s.ioData ⟨n, hlt⟩ with sockfd, iotype := some .ACCEPT } .ACCEPT 0 posts
      ⟨rfl, fun _ => ?_, fun h => ?_, fun h => ?_⟩ (hs.buffer ⟨n, hlt⟩)
    · cases posts <;> exact hpost
    · obtain rfl := PC.posting.inj hm
      exact Nat.lt_succ_self n
    · exact congrArg Peer.connected (hs.fresh ⟨n, hlt⟩ n hpc (Nat.le_refl n))
    · cases h
    · cases h
  | @started n sockfd posts hpc =>
    have hne := ne_ended_of_posting hpc
    refine ⟨⟨hs.each.pending, hs.each.completions⟩, hs.buffer,
      fun _ => ⟨(hs.used hne).1, fun n hn m hm => by cases hm⟩, fun h => PC.noConfusion h,
      fun _ _ h => PC.noConfusion h⟩
  | completed hi hdone => exact hs.completed hi hdone
  | send hconnected => exact hs.setPeer hconnected _
  | shutdown hconnected => exact hs.setPeer hconnected _
  | timeout => exact hs
  | fail => exact hs.exit
  | dequeue hpc hj hhandled =>
    obtain ⟨hs', hn⟩ := hs.dequeue hpc hj
    have hentry := (hs.each.completions _ (List.mem_of_getElem? hj)).recv
    exact hs'.handled hpc hn hentry hhandled

end Server

theorem sound_of_run {s₀ s : Server} {tr : List (Server × Act)} (h₀ : iocp.init s₀)
    (h : iocp.Run s₀ tr s) : s.Sound := by
  obtain rfl : s₀ = .new := h₀
  exact h.invariant (fun _ _ _ hs hstep => hs.step (Machine.ofStep_step.mp hstep)) .new

/-- The program posts its accepts, and a client connects and sends two bytes, which are
received. -/
def received : List Act :=
  List.replicate 11 (.post 7 true) ++
    [.connect 0, .dequeue 0 true true, .send 0 [104, 105], .recv 9 2, .dequeue 0 true true]

end Iocp

end CellNet
