import MailClient.Text.Utf8

/-! Failures of the transport itself. -/
namespace MailClient.Wire

inductive Fault where
  | closed
  | reset (reason : String)
  | writeRefused
  | writeNothing
  | notText (flaw : Text.Utf8.Flaw)
  | unreachable
  deriving DecidableEq, Repr

def Fault.message : Fault → String
  | .closed => "connection closed"
  | .reset reason => reason
  | .writeRefused => "write refused"
  | .writeNothing => "write zero"
  | .notText flaw => flaw.message
  | .unreachable => "network unreachable"

end MailClient.Wire
