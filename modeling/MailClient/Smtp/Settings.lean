import MailClient.Duration
import MailClient.Wire.Security

/-! Which mail server to use, and how. -/
namespace MailClient.Smtp

def defaultPort : Wire.Security → Nat
  | .plain => 25
  | .startTls => 587
  | .implicit => 465

structure Settings where
  host : String
  explicitPort : Option Nat := none
  security : Wire.Security := .startTls
  clientName : String := "localhost"
  connectLimit : Duration := Duration.seconds 30
  ioLimit : Duration := Duration.seconds 60
  deriving DecidableEq, Repr

def Settings.port (s : Settings) : Nat := s.explicitPort.getD (defaultPort s.security)

end MailClient.Smtp
