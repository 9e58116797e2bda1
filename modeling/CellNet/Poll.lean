import CellNet.Buffer
import CellNet.Heap

/-!
# Waiting for sockets

The two ways a server thread waits for its sockets. `CELLFDSet` is a bitmap for
`select`, and `select` itself replaces its sets by those of the ready descriptors : a
bit outside the bitmap must not be touched, by the program or by the call. `CELLEpoll`
is an epoll object, which keeps the registered descriptors with the client each belongs
to. Closing a descriptor unregisters it.

What the calls return is an argument, `SelectResult` and `EpollResult`.
`CELLEpoll.Reports` says what `epoll_wait` may return : each registered client at most
once.
-/

namespace CellNet

/-! ## select -/

/-- `CELL_MAX_FD`. -/
def CELL_MAX_FD : ℤ :=
  10240

/-- A `CELLFDSet`, `CELL_MAX_FD` bits. -/
structure CELLFDSet where
  /-- The positions of the bits that are set. -/
  bits : List SOCKET
  deriving DecidableEq, Repr

namespace CELLFDSet

/-- The set after `zero()`, and a new one. -/
def zero : CELLFDSet :=
  ⟨[]⟩

/-- `add`. A descriptor from `CELL_MAX_FD` on is only logged. -/
def add (set : CELLFDSet) (s : SOCKET) : Exec CELLFDSet :=
  if s < CELL_MAX_FD then
    if 0 ≤ s then return ⟨set.bits.insert s⟩ else .error .outOfBounds
  else
    return set

/-- `has`. -/
def has (set : CELLFDSet) (s : SOCKET) : Exec Bool :=
  if 0 ≤ s ∧ s < CELL_MAX_FD then return decide (s ∈ set.bits) else .error .outOfBounds

end CELLFDSet

/-- What `select` finds. -/
inductive SelectResult
  /-- The call fails, with `EINTR` or not. -/
  | fail (eintr : Bool)
  /-- The descriptors that can be read and those that can be written. -/
  | ready (readable writable : List SOCKET)
  deriving DecidableEq, Repr

/-- `errno == EINTR`. -/
def SelectResult.eintr : SelectResult → Bool
  | fail eintr => eintr
  | ready _ _ => false

/-- `select` : its return value and the two sets after it. The set `fdWrite` is passed if
`bNeedWrite`. -/
def select (nfds : ℤ) (fdRead fdWrite : CELLFDSet) (bNeedWrite : Bool) (r : SelectResult) :
    Exec (ℤ × CELLFDSet × CELLFDSet) :=
  if CELL_MAX_FD < nfds then .error .outOfBounds
  else
    match r with
    | .fail _ => return (-1, fdRead, fdWrite)
    | .ready readable writable =>
      let rs := fdRead.bits.filter (· ∈ readable)
      let ws := fdWrite.bits.filter (· ∈ writable)
      if bNeedWrite then return ((rs.length + ws.length : ℕ), ⟨rs⟩, ⟨ws⟩)
      else return ((rs.length : ℕ), ⟨rs⟩, fdWrite)

/-! ## epoll -/

/-- The client a registered descriptor belongs to, and whether it is polled for writing
too. -/
structure EpollEntry where
  ptr : Ptr
  epollout : Bool
  deriving DecidableEq, Repr

/-- A `CELLEpoll`. -/
structure CELLEpoll where
  /-- The registered descriptors. -/
  registered : List (SOCKET × EpollEntry)
  deriving DecidableEq, Repr

/-- The operations of `epoll_ctl` in use. -/
inductive EpollOp
  /-- `EPOLL_CTL_ADD`. -/
  | add
  /-- `EPOLL_CTL_MOD`. -/
  | mod
  deriving DecidableEq, Repr

/-- One entry of the event array. -/
structure EpollEvent where
  /-- `data.ptr`, `none` for a null pointer. -/
  ptr : Option Ptr
  epollin : Bool
  epollout : Bool
  deriving DecidableEq, Repr

/-- What `epoll_wait` finds. -/
inductive EpollResult
  /-- The call fails, with `EINTR` or not. -/
  | fail (eintr : Bool)
  | events (evs : List EpollEvent)
  deriving DecidableEq, Repr

/-- `wait` : its return value and the event array. -/
def EpollResult.wait : EpollResult → ℤ × List EpollEvent
  | fail true => (0, [])
  | fail false => (-1, [])
  | events evs => (evs.length, evs)

namespace CELLEpoll

/-- A new object. -/
def new : CELLEpoll :=
  ⟨[]⟩

/-- `ctl` for a client with the descriptor `fd`. The kernel may refuse (`ok`); it does
refuse to add a descriptor twice and to modify one that is not there. -/
def ctl (ep : CELLEpoll) (op : EpollOp) (p : Ptr) (fd : SOCKET) (epollout ok : Bool) :
    CELLEpoll :=
  if ok then
    match op with
    | .add =>
      if ep.registered.any fun e => e.1 = fd then ep
      else ⟨ep.registered ++ [(fd, ⟨p, epollout⟩)]⟩
    | .mod => ⟨ep.registered.map fun e => if e.1 = fd then (fd, ⟨p, epollout⟩) else e⟩
  else ep

/-- The registered descriptors once `fd` is closed. -/
def close (ep : CELLEpoll) (fd : SOCKET) : CELLEpoll :=
  ⟨ep.registered.filter fun e => e.1 ≠ fd⟩

/-- `epoll_wait` reports registered clients, each at most once. -/
def Reports (ep : CELLEpoll) : EpollResult → Prop
  | .fail _ => True
  | .events evs => (evs.map EpollEvent.ptr).Nodup ∧
      ∀ ev ∈ evs, ∃ e ∈ ep.registered, ev.ptr = some e.2.ptr

instance (ep : CELLEpoll) : (r : EpollResult) → Decidable (ep.Reports r)
  | .fail _ => inferInstanceAs (Decidable True)
  | .events _ => inferInstanceAs (Decidable (_ ∧ _))

end CELLEpoll

end CellNet
