import CellNet.Client
import CellNet.Heap
import CellNet.Stream

/-!
# The event object

`EasyTcpServer` is the `INetEvent` of its worker threads : `NetEvent` is a call of one of
its event functions, and `NetCounts` has the three atomic counters these keep. `MyServer`
is the one of the server program, whose `OnNetMsg` answers the messages of a client.

A reply struct and a write stream are new memory, and hold what `mem` held where
nothing is assigned.
-/

namespace CellNet

/-! ## The counters -/

/-- The counters of an `EasyTcpServer`. -/
structure NetCounts where
  /-- `_recvCount`. -/
  recvCount : ℤ
  /-- `_msgCount`. -/
  msgCount : ℤ
  /-- `_clientCount`. -/
  clientCount : ℤ
  deriving DecidableEq, Repr

namespace NetCounts

/-- The counters of a new `EasyTcpServer`. -/
def zero : NetCounts :=
  ⟨0, 0, 0⟩

/-- `OnNetJoin`. -/
def onNetJoin (n : NetCounts) : NetCounts :=
  { n with clientCount := int32 (n.clientCount + 1) }

/-- `OnNetLeave`. -/
def onNetLeave (n : NetCounts) : NetCounts :=
  { n with clientCount := int32 (n.clientCount - 1) }

/-- `OnNetMsg`. -/
def onNetMsg (n : NetCounts) : NetCounts :=
  { n with msgCount := int32 (n.msgCount + 1) }

/-- `OnNetRecv`. -/
def onNetRecv (n : NetCounts) : NetCounts :=
  { n with recvCount := int32 (n.recvCount + 1) }

end NetCounts

/-- A call of an event function, with what the call is about. -/
inductive NetEvent
  | onNetJoin (p : Ptr)
  | onNetLeave (p : Ptr)
  /-- `OnNetMsg`, with the message `m`. -/
  | onNetMsg (p : Ptr) (m : List UInt8)
  /-- `OnNetRecv`, behind a `RecvData` that read the bytes `bs`. -/
  | onNetRecv (p : Ptr) (bs : List UInt8)
  deriving DecidableEq, Repr

namespace NetEvent

/-- `pClient`. -/
def pClient : NetEvent → Ptr
  | onNetJoin p => p
  | onNetLeave p => p
  | onNetMsg p _ => p
  | onNetRecv p _ => p

/-- The counters after the call. -/
def counted : NetEvent → NetCounts → NetCounts
  | onNetJoin _ => .onNetJoin
  | onNetLeave _ => .onNetLeave
  | onNetMsg _ _ => .onNetMsg
  | onNetRecv _ _ => .onNetRecv

end NetEvent

/-! ## The server program -/

/-- A `MyServer`, with the lines it logged. -/
structure MyServer where
  counts : NetCounts
  /-- `-sendback`. -/
  bSendBack : Bool
  /-- `-sendfull`. -/
  bSendFull : Bool
  /-- `-checkMsgID`. -/
  bCheckMsgID : Bool
  log : List LogCall
  deriving DecidableEq, Repr

namespace MyServer

/-- The server after one log call. -/
def logged (s : MyServer) (l : LogCall) : MyServer :=
  { s with log := s.log ++ [l] }

/-- The check of the message id in a `netmsg_Login`. -/
def checkMsgID (s : MyServer) (pClient : CELLClient) (login : List UInt8) :
    Exec (MyServer × CELLClient) :=
  if s.bCheckMsgID then do
    let id ← msgID login
    let s := if id ≠ pClient.nRecvMsgID then
        s.logged (.msgIDMismatch pClient.sockfd id pClient.nRecvMsgID
          (int32 (id - pClient.nRecvMsgID)))
      else s
    return (s, { pClient with nRecvMsgID := int32 (pClient.nRecvMsgID + 1) })
  else
    return (s, pClient)

/-- The answer to a `netmsg_Login`. -/
def sendBack (s : MyServer) (pClient : CELLClient) (mem : ℕ → UInt8) :
    Exec (MyServer × CELLClient) :=
  if s.bSendBack then do
    let ret : NetmsgLoginR := ⟨0, Vector.ofFn fun i => mem i, pClient.nSendMsgID⟩
    let (sent, pClient) ← pClient.sendDataHeader ret.bytes
    if SOCKET_ERROR = sent then
      return (if s.bSendFull then s.logged (.sendFull pClient.sockfd) else s, pClient)
    else
      return (s, { pClient with nSendMsgID := int32 (pClient.nSendMsgID + 1) })
  else
    return (s, pClient)

/-- `OnNetMsg`, `CMD_LOGIN`. -/
def onLogin (s : MyServer) (pClient : CELLClient) (header : List UInt8) (mem : ℕ → UInt8) :
    Exec (MyServer × CELLClient) := do
  let (s, pClient) ← s.checkMsgID pClient.resetDTHeart header
  s.sendBack pClient mem

/-- `OnNetMsg`, `CMD_LOGOUT`. -/
def onLogout (s : MyServer) (pClient : CELLClient) (header : List UInt8) (mem : ℕ → UInt8) :
    Exec (MyServer × CELLClient) := do
  let pClient := pClient.resetDTHeart
  let r ← CELLStream.ofHeader header
  let (_, r) ← r.readInt16
  let (_, r) ← r.getNetCmd
  let (n1, r) ← r.readInt8
  let (n2, r) ← r.readInt16
  let (n3, r) ← r.readInt32
  let (n4, r) ← r.readFloat
  let (n5, r) ← r.readDouble
  let (_, r) ← r.onlyRead 4
  let (n6, name, r) ← r.readArray 1 (List.replicate 32 0) 32
  let (n7, pw, r) ← r.readArray 1 (List.replicate 32 0) 32
  let (n8, ata, r) ← r.readArray 4 (List.replicate 40 0) 10
  let w ← CELLStream.newWrite 128 mem
  let w ← w.setNetCmd CMD.logoutResult.code
  let (_, w) ← w.write n1
  let (_, w) ← w.write n2
  let (_, w) ← w.write n3
  let (_, w) ← w.write n4
  let (_, w) ← w.write n5
  let (_, w) ← w.writeArray 1 name n6
  let (_, w) ← w.writeArray 1 pw n7
  let (_, w) ← w.writeArray 4 ata n8
  let w ← w.finsh
  let (_, pClient) ← pClient.sendData w.data w.length
  return ({ s with log := s.log ++ r.log ++ w.log }, pClient)

/-- `OnNetMsg`, any other command. -/
def onUndefine (s : MyServer) (pClient : CELLClient) (header : List UInt8) :
    Exec (MyServer × CELLClient) := do
  let n ← dataLength header
  return (s.logged (.serverUndefineMsgType pClient.sockfd n), pClient)

/-- `OnNetMsg`, `CMD_C2S_HEART`. The case has no `break`. -/
def onHeart (s : MyServer) (pClient : CELLClient) (header : List UInt8) :
    Exec (MyServer × CELLClient) := do
  let (_, pClient) ← pClient.resetDTHeart.sendDataHeader netmsgS2cHeartBytes
  s.onUndefine pClient header

/-- `OnNetMsg`. -/
def onNetMsg (s : MyServer) (pClient : CELLClient) (header : List UInt8) (mem : ℕ → UInt8) :
    Exec (MyServer × CELLClient) := do
  let s := { s with counts := s.counts.onNetMsg }
  let c ← cmd header
  match CMD.ofCode c with
  | some .login => s.onLogin pClient header mem
  | some .logout => s.onLogout pClient header mem
  | some .c2sHeart => s.onHeart pClient header
  | _ => s.onUndefine pClient header

end MyServer

end CellNet
