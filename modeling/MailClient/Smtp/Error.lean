import MailClient.Sasl.Error
import MailClient.Wire.Fault

/-! What can go wrong in a mail session, and whether it may go better later. -/
namespace MailClient.Smtp

inductive ReplyClass where
  | completed
  | more
  | transient
  | permanent
  | unknown
  deriving DecidableEq, Repr

def ReplyClass.ofCode (code : Nat) : ReplyClass :=
  match code / 100 with
  | 2 => .completed
  | 3 => .more
  | 4 => .transient
  | 5 => .permanent
  | _ => .unknown

inductive AddressProblem where
  | empty
  | forbidden (text : String)
  | severalAts
  | emptyPart
  | noAt
  deriving DecidableEq, Repr

def AddressProblem.message : AddressProblem → String
  | .empty => "Address cannot be empty"
  | .forbidden text => "Address contains forbidden characters: " ++ Text.quoted text
  | .severalAts => "Address must have exactly one @"
  | .emptyPart => "Local and domain parts cannot be empty"
  | .noAt => "Address must contain @"

inductive Violation where
  | emptyReply
  | replyCode (line : String)
  | codeChanged (line : String)
  | separator (line : String)
  | lineTooLong
  | tooManyLines
  | unexpectedReply (code : Nat)
  | endlessChallenges
  | earlyData
  deriving DecidableEq, Repr

def Violation.message : Violation → String
  | .emptyReply => "Empty reply"
  | .replyCode line => "Invalid reply code: " ++ line
  | .codeChanged line => "Reply code changed mid-reply: " ++ line
  | .separator line => "Malformed reply line: " ++ line
  | .lineTooLong => "Reply line too long"
  | .tooManyLines => "Reply has too many lines"
  | .unexpectedReply code => s!"unexpected {code} reply during AUTH"
  | .endlessChallenges => "Server kept challenging after AUTH was cancelled"
  | .earlyData => "Server sent data after STARTTLS reply"

inductive Error where
  | io (fault : Wire.Fault)
  | hostName
  | refused (code : Nat) (text : String)
  | auth (e : Sasl.Error)
  | violation (what : Violation)
  | timeout (limit : Duration)
  | address (problem : AddressProblem)
  | unsupported (feature : String)
  deriving DecidableEq, Repr

namespace Error

def message : Error → String
  | .io fault => "I/O error: " ++ fault.message
  | .hostName => "Invalid DNS name: invalid dns name"
  | .refused code text => s!"SMTP error {code}: " ++ text
  | .auth e => "Authentication failed: " ++ e.message
  | .violation what => "Protocol error: " ++ what.message
  | .timeout limit => "Operation timed out after " ++ limit.text
  | .address problem => "Invalid email address: " ++ problem.message
  | .unsupported feature => "Server does not support " ++ feature

def closingDown : Nat := 421

def isFatal : Error → Bool
  | .io _ | .violation _ | .timeout _ => true
  | .refused code _ => code == closingDown
  | _ => false

def replyClass? : Error → Option ReplyClass
  | .refused code _ => some (.ofCode code)
  | _ => none

def isPermanent (e : Error) : Bool := e.replyClass? == some .permanent

def isTransient (e : Error) : Bool := e.replyClass? == some .transient

end Error
end MailClient.Smtp
