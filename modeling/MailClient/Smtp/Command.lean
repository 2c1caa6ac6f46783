import MailClient.Bytes
import MailClient.Sasl.Scheme
import MailClient.Smtp.Address

/-! Commands to a mail server. -/
namespace MailClient.Smtp

inductive Command where
  | helo (name : String)
  | ehlo (name : String)
  | startTls
  /-- The first message of a scheme may go out with its name. -/
  | auth (scheme : Sasl.Scheme) (initial : Option String)
  | mail (sender : Address) (body : Option String) (size : Option Nat)
  | rcpt (recipient : Address)
  | data
  | rset
  | noop
  | quit
  deriving DecidableEq

namespace Command

def verb : Command → String
  | .helo _ => "HELO"
  | .ehlo _ => "EHLO"
  | .startTls => "STARTTLS"
  | .auth .. => "AUTH"
  | .mail .. => "MAIL FROM"
  | .rcpt _ => "RCPT TO"
  | .data => "DATA"
  | .rset => "RSET"
  | .noop => "NOOP"
  | .quit => "QUIT"

def isSensitive : Command → Bool
  | .auth .. => true
  | _ => false

def path (a : Address) : String := ":<" ++ a.text ++ ">"

/-- A first message after the name of its scheme; an empty one is written as an equals sign. -/
def initialArgument : Option String → String
  | none => ""
  | some message => " " ++ (if message.isEmpty then "=" else message)

def parameter (name : String) : Option String → String
  | none => ""
  | some value => " " ++ name ++ "=" ++ value

def arguments : Command → String
  | .helo name | .ehlo name => " " ++ name
  | .auth scheme initial => " " ++ scheme.name ++ initialArgument initial
  | .mail sender body size =>
    path sender ++ parameter "BODY" body ++ parameter "SIZE" (size.map toString)
  | .rcpt recipient => path recipient
  | .startTls | .data | .rset | .noop | .quit => ""

def encode (c : Command) : Bytes := Bytes.line (c.verb ++ c.arguments)

end Command
end MailClient.Smtp
