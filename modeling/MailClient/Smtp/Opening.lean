import MailClient.Smtp.Session
import MailClient.Wire.HostName
import MailClient.Wire.Opening

/-! From the dialled host to a session, or to the point at which encryption begins. -/
namespace MailClient.Smtp.Session

abbrev Opening (stage : Stage) := Wire.Opening (Session stage) Error

variable {stage : Stage}

def Opening.lost (e : Error) (stream : Wire.Stream) : Opening stage := .failed e (some stream)

/-- Begins encryption, if the host can prove its name. -/
def handshake (host : String) (stream : Wire.Stream) : Opening stage :=
  if Wire.HostName.isValid host then .handshake host stream else .lost .hostName stream

/-- Asks for encryption. Nothing of what was said in the clear may count after it, so the server
must be silent behind its reply. -/
def startTls (host : String) (s : Session .connected) : Opening .connected :=
  if !s.server.supports .startTls then .lost (.unsupported "STARTTLS") s.stream
  else match request .startTls s.ioLimit s.stream with
    | (.error e, stream) => .lost e stream
    | (.ok reply, stream) =>
      match reply.error? with
      | some e => .lost e stream
      | none =>
        if stream.inbox.buffer.isEmpty then handshake host stream
        else .lost (.violation .earlyData) stream

def introduce (stream : Wire.Stream) (s : Settings) : Outcome .connected :=
  (start stream s).bind hello

def connect (dialled : Wire.Dialled) (s : Settings) : Opening .connected :=
  match dialled with
  | .fault f => .failed (.io f) none
  | .expired => .failed (.timeout s.connectLimit) none
  | .stream stream =>
    match s.security with
    | .implicit => handshake s.host stream
    | .plain =>
      match introduce stream s with
      | .next session => .ready session
      | .lost e stream => .lost e stream
    | .startTls =>
      match introduce stream s with
      | .next session => session.startTls s.host
      | .lost e stream => .lost e stream

def connectAs {τ : Type} (dialled : Wire.Dialled) (s : Settings) (strategy : Sasl.Strategy)
    (service : Sasl.TokenService τ) (tokens : τ) : Opening .authenticated × τ :=
  match connect dialled s with
  | .failed e stream => (.failed e stream, tokens)
  | .handshake host stream => (.handshake host stream, tokens)
  | .ready session =>
    match session.authenticate s.host strategy service tokens with
    | (.next session, tokens) => (.ready session, tokens)
    | (.lost e stream, tokens) => (.lost e stream, tokens)

end MailClient.Smtp.Session
