import Mathlib.Data.Int.Notation
import Mathlib.Data.Nat.Notation

/-!
# Log calls

The lines the modelled functions write with `CELLLog`, as data : a constructor is one
format string of the source, its arguments are the values printed.
-/

namespace CellNet

/-- One call of a `CELLLog` function. -/
inductive LogCall
  /-- `OnNetMsg socket<%d> msgID<%d> _nRecvMsgID<%d> %d`. -/
  | msgIDMismatch (sockfd msgID nRecvMsgID diff : ℤ)
  /-- `<Socket=%d> Send Full`. -/
  | sendFull (sockfd : ℤ)
  /-- `recv <socket=%d> undefine msgType,dataLen：%d`. -/
  | serverUndefineMsgType (sockfd : ℤ) (dataLen : ℕ)
  /-- `<socket=%d> recv msgType：CMD_ERROR`. -/
  | cmdError (sockfd : ℤ)
  /-- `error, <socket=%d> recv undefine msgType`. -/
  | clientUndefineMsgType (sockfd : ℤ)
  /-- `error, CELLStream::Read failed.` -/
  | streamReadFailed
  /-- `CELLStream::ReadArray failed.` -/
  | streamReadArrayFailed
  /-- `CELLStream::Write failed.` -/
  | streamWriteFailed
  /-- `CELLStream::WriteArray failed.` -/
  | streamWriteArrayFailed
  deriving DecidableEq, Repr

/-- The line reports a message id other than the expected one. -/
def LogCall.IsMismatch : LogCall → Prop
  | msgIDMismatch .. => True
  | _ => False

end CellNet
