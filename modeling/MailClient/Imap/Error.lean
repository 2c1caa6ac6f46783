import MailClient.Imap.Malformed
import MailClient.Imap.Response
import MailClient.Sasl.Error
import MailClient.Wire.Fault

/-! What can go wrong in a conversation with a server. -/
namespace MailClient.Imap

inductive Violation where
  | greetingNotUntagged
  | greetingNotStatus
  | tagInUse (tag : Tag)
  | unknownTag (tag : Tag)
  | unexpectedContinuation (text : String)
  | completion (status : Status) (tag : Tag)
  | idleCompletion (status : Status)
  | idleContinuation
  | idleNotEntered
  | idleMissing
  | endlessChallenges
  | earlyData
  | reported (text : String)
  deriving DecidableEq, Repr

def Violation.message : Violation → String
  | .greetingNotUntagged => "greeting is not untagged"
  | .greetingNotStatus => "greeting is not a status response"
  | .tagInUse tag => "tag " ++ tag.text ++ " is already outstanding"
  | .unknownTag tag => "completion for unknown tag " ++ tag.text
  | .unexpectedContinuation text => "unexpected continuation request: " ++ text
  | .completion status tag => "tagged " ++ status.keyword ++ " completion for " ++ tag.text
  | .idleCompletion status => "unexpected " ++ status.keyword ++ " completing IDLE"
  | .idleContinuation => "unexpected continuation during IDLE"
  | .idleNotEntered => "IDLE completed without a continuation"
  | .idleMissing => "server does not support IDLE"
  | .endlessChallenges => "server kept challenging after the exchange was cancelled"
  | .earlyData => "server sent data after STARTTLS completion"
  | .reported text => text

inductive Misuse where
  | unusable
  | literalWaits (tag : Tag)
  | notOutstanding (tag : Tag)
  | noExchange
  | watchStarted (folder : String)
  | watchNotStarted (folder : String)
  | noRuntime
  | reported (text : String)
  deriving DecidableEq, Repr

def Misuse.message : Misuse → String
  | .unusable => "connection is no longer usable"
  | .literalWaits tag => "command " ++ tag.text ++ " is still waiting to send literal data"
  | .notOutstanding tag => "tag " ++ tag.text ++ " is not outstanding"
  | .noExchange => "no authentication exchange in progress"
  | .watchStarted folder => "push session for " ++ folder ++ " is already started"
  | .watchNotStarted folder => "push session for " ++ folder ++ " is not started"
  | .noRuntime => "no runtime"
  | .reported text => text

inductive Error where
  | io (fault : Wire.Fault)
  | hostName
  | malformed (position : Nat) (why : Malformed)
  | auth (e : Sasl.Error)
  | no (text : String)
  | bad (text : String)
  | bye (text : String)
  | timeout (limit : Duration)
  | misuse (what : Misuse)
  | violation (what : Violation)
  deriving DecidableEq, Repr

namespace Error

def message : Error → String
  | .io fault => "I/O error: " ++ fault.message
  | .hostName => "Invalid DNS name: invalid dns name"
  | .malformed position why => s!"Malformed response at byte {position}: {why.message}"
  | .auth e => "Authentication failed: " ++ e.message
  | .no text => "Server returned NO: " ++ text
  | .bad text => "Server returned BAD: " ++ text
  | .bye text => "Server sent BYE: " ++ text
  | .timeout limit => "Operation timed out after " ++ limit.text
  | .misuse what => "Invalid state: " ++ what.message
  | .violation what => "Protocol error: " ++ what.message

/-- Whether the connection is lost with this error. -/
def isFatal : Error → Bool
  | .io _ | .malformed .. | .violation _ | .bye _ => true
  | _ => false

end Error
end MailClient.Imap
