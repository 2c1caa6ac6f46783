import MailClient.Imap.Conversation
import MailClient.Wire.HostName
import MailClient.Wire.Opening

/-! From the dialled host to a connection, or to the point at which encryption begins. -/
namespace MailClient.Imap.Connection

abbrev Opening := Wire.Opening Connection Error

def Opening.lost (e : Error) (stream : Wire.Stream) : Opening := .failed e (some stream)

/-- Begins encryption, if the host can prove its name. -/
def handshake (host : String) (stream : Wire.Stream) : Opening :=
  if Wire.HostName.isValid host then .handshake host stream else .lost .hostName stream

/-- Asks for encryption. Nothing of what was said in the clear may count after it, so the server
must be silent behind its completion. -/
def startTls (host : String) (c : Connection) : Opening :=
  match execute (.named "STARTTLS") c with
  | (.error e, c) => .lost e c.stream
  | (.ok _, c) =>
    if c.stream.inbox.buffer.isEmpty then handshake host c.stream
    else .lost (.violation .earlyData) c.stream

def connect (dialled : Wire.Dialled) (s : Settings) : Opening :=
  match dialled with
  | .fault f => .failed (.io f) none
  | .expired => .failed (.timeout s.connectLimit) none
  | .stream stream =>
    match s.security with
    | .implicit => handshake s.host stream
    | .plain =>
      match start stream s with
      | (.ok (), c) => .ready c
      | (.error e, c) => .lost e c.stream
    | .startTls =>
      match start stream s with
      | (.ok (), c) => c.startTls s.host
      | (.error e, c) => .lost e c.stream

end MailClient.Imap.Connection
