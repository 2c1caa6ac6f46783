import MailClient.Imap.Parse
import MailClient.Json.Record
import MailClient.Wire.Security

/-! Where to connect, and the limits of the conversation. -/
namespace MailClient.Imap

def defaultPort : Wire.Security → Nat
  | .plain | .startTls => 143
  | .implicit => 993

structure Settings where
  host : String
  explicitPort : Option Nat := none
  security : Wire.Security := .implicit
  connectLimit : Duration := Duration.seconds 30
  ioLimit : Duration := Duration.seconds 60
  parse : Parse.Limits := Parse.defaultLimits
  /-- Whether literals may be sent without waiting where the server allows it. -/
  literalPlus : Bool := true
  deriving DecidableEq, Repr

namespace Settings

def port (s : Settings) : Nat := s.explicitPort.getD (defaultPort s.security)

def ofJson? (v : Json) : Option Settings := do
  let c ← Json.columns? ["host", "port", "security", "connect_timeout", "io_timeout",
    "literal_spill_threshold", "max_line_length", "literal_plus"] false v
  let host ← c.read 0 none Json.text?
  let d : Settings := { host := host }
  let port ← c.read 1 (some none) (Json.nullable (Json.below? (Nat.pow 2 16)))
  let security ← c.read 2 (some d.security) fun v => Json.choice? v >>= Wire.Security.ofName?
  let connectLimit ← c.read 3 (some d.connectLimit) Json.duration?
  let ioLimit ← c.read 4 (some d.ioLimit) Json.duration?
  let spill ← c.read 5 (some d.parse.spill) (Json.below? (Nat.pow 2 64))
  let line ← c.read 6 (some d.parse.line) (Json.below? (Nat.pow 2 64))
  let literalPlus ← c.read 7 (some d.literalPlus) Json.bool?
  return ⟨host, port, security, connectLimit, ioLimit, ⟨line, spill⟩, literalPlus⟩

end Settings
end MailClient.Imap
