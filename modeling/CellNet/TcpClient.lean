import CellNet.Client
import CellNet.Log

/-!
# The client side

`EasyTcpClient` owns one `CELLClient`, or none before it has a socket and after
`Close`, and drains it with the handler of a derived class. `MyClient` is the derived
class of the client program : it numbers the messages it sends, checks the numbers of
those it receives, and sends at a limited rate.
-/

namespace CellNet

/-! ## The owner of a connection -/

/-- An `EasyTcpClient`, with the members `δ` of the derived class. -/
structure EasyTcpClient (δ : Type) where
  /-- `none` for a null pointer. -/
  pClient : Option CELLClient
  isConnect : Bool
  derived : δ

namespace EasyTcpClient

variable {δ : Type}

/-- `*_pClient`. -/
def deref (e : EasyTcpClient δ) : Exec CELLClient :=
  match e.pClient with
  | some c => .ok c
  | none => .error .nullDeref

/-- The client object now in the state `c`. -/
def setClient (e : EasyTcpClient δ) (c : CELLClient) : EasyTcpClient δ :=
  { e with pClient := some c }

/-- `isRun`. -/
def isRun (e : EasyTcpClient δ) : Bool :=
  e.pClient.isSome && e.isConnect

/-- `_pClient->pop_front_msg()`. -/
def popFrontMsg (e : EasyTcpClient δ) : Exec (EasyTcpClient δ) := do
  let c ← e.deref
  let c ← c.popFrontMsg
  return e.setClient c

/-- `_pClient->SendDataReal()`, with the bytes the socket accepted. -/
def sendDataReal (e : EasyTcpClient δ) (r : SendResult) :
    Exec (ℤ × List UInt8 × EasyTcpClient δ) := do
  let c ← e.deref
  let (ret, sent, c) ← c.sendDataReal r
  return (ret, sent, e.setClient c)

/-- `_pClient->RecvData()`. -/
def clientRecvData (e : EasyTcpClient δ) (r : RecvResult) : Exec (ℤ × EasyTcpClient δ) := do
  let c ← e.deref
  let (nLen, c) ← c.recvData r
  return (nLen, e.setClient c)

/-- The drain loop of `RecvData`. -/
def drain (onNetMsg : EasyTcpClient δ → List UInt8 → Exec (EasyTcpClient δ)) :
    Loop (EasyTcpClient δ) UB :=
  drainLoop deref onNetMsg popFrontMsg

/-- `RecvData`, its loop ended after at most `n` tests. -/
def recvData (onNetMsg : EasyTcpClient δ → List UInt8 → Exec (EasyTcpClient δ)) (n : ℕ)
    (e : EasyTcpClient δ) (r : RecvResult) : Option (Exec (ℤ × EasyTcpClient δ)) :=
  if e.isRun then
    match e.clientRecvData r with
    | .error u => some (.error u)
    | .ok (nLen, e) =>
      if 0 < nLen then ((drain onNetMsg).run n e).map (Functor.map (nLen, ·))
      else some (.ok (nLen, e))
  else
    some (.ok (0, e))

/-- `SendData(header)`. -/
def sendData (e : EasyTcpClient δ) (header : List UInt8) : Exec (ℤ × EasyTcpClient δ) :=
  if e.isRun then do
    let c ← e.deref
    let (ret, c) ← c.sendDataHeader header
    return (ret, e.setClient c)
  else
    return (SOCKET_ERROR, e)

end EasyTcpClient

/-! ## The client program -/

/-- The members of a `MyClient`, with the lines it logged. -/
structure MyClient where
  nRecvMsgID : ℤ
  nSendMsgID : ℤ
  tRestTime : ℤ
  /-- The messages it may still send. -/
  nSendCount : ℤ
  /-- `-checkMsgID`. -/
  bCheckMsgID : Bool
  log : List LogCall
  deriving DecidableEq, Repr

namespace MyClient

/-- The members of a new `MyClient`. -/
def new (bCheckMsgID : Bool) : MyClient :=
  ⟨1, 1, 0, 0, bCheckMsgID, []⟩

/-- The client after one log call. -/
def logged (m : MyClient) (l : LogCall) : MyClient :=
  { m with log := m.log ++ [l] }

/-- `OnNetMsg`, `CMD_LOGIN_RESULT`. -/
def onLoginResult (e : EasyTcpClient MyClient) (login : List UInt8) :
    Exec (EasyTcpClient MyClient) :=
  if e.derived.bCheckMsgID then do
    let id ← msgID login
    let c ← e.deref
    let m := if id ≠ e.derived.nRecvMsgID then
        e.derived.logged (.msgIDMismatch c.sockfd id e.derived.nRecvMsgID
          (int32 (id - e.derived.nRecvMsgID)))
      else e.derived
    return { e with derived := { m with nRecvMsgID := int32 (m.nRecvMsgID + 1) } }
  else
    return e

/-- `OnNetMsg`. -/
def onNetMsg (e : EasyTcpClient MyClient) (header : List UInt8) :
    Exec (EasyTcpClient MyClient) := do
  let n ← cmd header
  match CMD.ofCode n with
  | some .loginResult => onLoginResult e header
  | some .logoutResult => return e
  | some .newUserJoin => return e
  | some .error => do
    let c ← e.deref
    return { e with derived := e.derived.logged (.cmdError c.sockfd) }
  | _ => do
    let c ← e.deref
    return { e with derived := e.derived.logged (.clientUndefineMsgType c.sockfd) }

/-- `SendTest`. -/
def sendTest (e : EasyTcpClient MyClient) (login : NetmsgLogin) :
    Exec (ℤ × EasyTcpClient MyClient) :=
  if 0 < e.derived.nSendCount then do
    let login := { login with msgID := e.derived.nSendMsgID }
    let (ret, e) ← e.sendData login.bytes
    if SOCKET_ERROR ≠ ret then
      return (ret, { e with derived := { e.derived with
        nSendMsgID := int32 (e.derived.nSendMsgID + 1)
        nSendCount := e.derived.nSendCount - 1 } })
    else
      return (ret, e)
  else
    return (0, e)

/-- `checkSend`, with the settings `nMsg` and `nSendSleep` of the program. -/
def checkSend (nMsg nSendSleep : ℤ) (m : MyClient) (dt : ℤ) : Bool × MyClient :=
  let tRestTime := m.tRestTime + dt
  let m := if nSendSleep ≤ tRestTime then
      { m with tRestTime := tRestTime - nSendSleep, nSendCount := nMsg }
    else { m with tRestTime }
  (decide (0 < m.nSendCount), m)

end MyClient

end CellNet
