import MailClient.Sasl.Scheme
import MailClient.Text.Decimal

/-! What a server can do beyond the basic protocol, as it announces it in reply to EHLO. -/
namespace MailClient.Smtp

inductive Extension where
  | startTls
  | auth (schemes : List Sasl.Scheme)
  /-- The largest message that the server takes, if it tells. -/
  | size (limit : Option Nat)
  | eightBitMime
  | pipelining
  | smtpUtf8
  | enhancedStatusCodes
  | unknown (line : String)
  deriving DecidableEq, Repr

namespace Extension

/-- Reads a line of the reply. Some servers write an equals sign after `AUTH`. -/
def ofLine (line : String) : Extension :=
  match Text.words line with
  | [] => .unknown line
  | first :: rest =>
    match Text.afterWord? "AUTH=" first with
    | some scheme => .auth ((scheme :: rest).filterMap Sasl.Scheme.ofName?)
    | none =>
      match Text.upper first with
      | "STARTTLS" => .startTls
      | "AUTH" => .auth (rest.filterMap Sasl.Scheme.ofName?)
      | "SIZE" => .size (rest.head? >>= Text.unsigned? (Nat.pow 2 64))
      | "8BITMIME" => .eightBitMime
      | "PIPELINING" => .pipelining
      | "SMTPUTF8" => .smtpUtf8
      | "ENHANCEDSTATUSCODES" => .enhancedStatusCodes
      | _ => .unknown line

def schemes : Extension → List Sasl.Scheme
  | .auth schemes => schemes
  | _ => []

end Extension

structure Server where
  name : String
  extensions : List Extension
  deriving DecidableEq, Repr

namespace Server

def extensionsOfLines (lines : List String) : List Extension :=
  (lines.map Extension.ofLine).eraseDups

def supports (s : Server) (e : Extension) : Bool := s.extensions.contains e

def mechanisms (s : Server) : List Sasl.Scheme :=
  (s.extensions.flatMap Extension.schemes).eraseDups

def maxMessageSize (s : Server) : Option Nat :=
  s.extensions.findSome? fun
    | .size limit => limit
    | _ => none

end Server
end MailClient.Smtp
