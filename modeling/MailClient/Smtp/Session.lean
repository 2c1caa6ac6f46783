import MailClient.Smtp.Dialogue
import MailClient.Smtp.Extension
import MailClient.Smtp.Message
import MailClient.Smtp.Settings

/-! A mail session. Its stage says which commands come next, and every operation uses the session
up: what follows is the session in its new stage, or an error with which the session is lost. -/
namespace MailClient.Smtp

inductive Stage where
  | connected
  | authenticated
  /-- A sender has been given. -/
  | mail
  /-- At least one recipient has been given. -/
  | recipient
  | data
  deriving DecidableEq, Repr

namespace Stage

def isIdle : Stage → Bool
  | .connected | .authenticated => true
  | _ => false

def takesRecipients : Stage → Bool
  | .mail | .recipient => true
  | _ => false

end Stage

structure Session (stage : Stage) where
  stream : Wire.Stream
  server : Server
  clientName : String
  ioLimit : Duration
  deriving DecidableEq, Repr

inductive Outcome (stage : Stage) where
  | next (s : Session stage)
  | lost (e : Error) (stream : Wire.Stream)

namespace Outcome

variable {a b : Stage}

def stream : Outcome a → Wire.Stream
  | .next s => s.stream
  | .lost _ stream => stream

def bind (o : Outcome a) (f : Session a → Outcome b) : Outcome b :=
  match o with
  | .next s => f s
  | .lost e stream => .lost e stream

end Outcome

def greetingCode : Nat := 220

def dataCode : Nat := 354

def isUnknownCommand (code : Nat) : Bool := code == 500 || code == 502

namespace Session

variable {stage next : Stage}

/-- Runs steps on the stream that lead to another stage. -/
def follow (m : Action Wire.Stream Error Unit) (s : Session stage) : Outcome next :=
  match m s.stream with
  | (.ok (), stream) => .next { s with stream := stream }
  | (.error e, stream) => .lost e stream

/-- Gives a command that has to be accepted. -/
def command (c : Command) (s : Session stage) : Outcome next :=
  s.follow do accepted (← request c s.ioLimit)

def serverName (greeting : Reply) : String := (Text.words greeting.firstLine).headD "unknown"

def start (stream : Wire.Stream) (s : Settings) : Outcome .connected :=
  match readReply s.ioLimit stream with
  | (.error e, stream) => .lost e stream
  | (.ok reply, stream) =>
    if reply.code = greetingCode then
      .next ⟨stream, ⟨serverName reply, []⟩, s.clientName, s.ioLimit⟩
    else .lost reply.refusal stream

def withExtensions (extensions : List Extension) (s : Session stage) : Session stage :=
  { s with server := { s.server with extensions := extensions } }

/-- Introduces the client, and learns which extensions the server has. A server that does not
know EHLO is given HELO, and has none. -/
def hello (s : Session .connected) : Outcome .connected :=
  match request (.ehlo s.clientName) s.ioLimit s.stream with
  | (.error e, stream) => .lost e stream
  | (.ok reply, stream) =>
    let s := { s with stream := stream }
    if reply.isSuccess then .next (s.withExtensions (Server.extensionsOfLines (reply.lines.drop 1)))
    else if isUnknownCommand reply.code then
      (s.command (.helo s.clientName)).bind fun s => .next (s.withExtensions [])
    else .lost reply.refusal stream

def authenticate {τ : Type} (host : String) (strategy : Sasl.Strategy)
    (service : Sasl.TokenService τ) (tokens : τ) (s : Session .connected) :
    Outcome .authenticated × τ :=
  match s.server.mechanisms with
  | [] => (.lost (.unsupported "AUTH") s.stream, tokens)
  | mechanisms =>
    match Smtp.authenticate host mechanisms strategy service s.ioLimit (s.stream, tokens) with
    | (.ok _, stream, tokens) => (.next { s with stream := stream }, tokens)
    | (.error e, stream, tokens) => (.lost e stream, tokens)

def mail (sender : Address) (s : Session stage) (_ : stage.isIdle := by rfl) : Outcome .mail :=
  let body := if s.server.supports .eightBitMime then some "8BITMIME" else none
  s.command (.mail sender body none)

def rcpt (recipient : Address) (s : Session stage) (_ : stage.takesRecipients := by rfl) :
    Outcome .recipient :=
  s.command (.rcpt recipient)

def reset (s : Session stage) (_ : stage.takesRecipients := by rfl) : Outcome .connected :=
  s.command .rset

def data (s : Session .recipient) : Outcome .data :=
  s.follow do
    let reply ← request .data s.ioLimit
    if reply.code = dataCode then pure () else Action.fail reply.refusal

/-- Sends the message, which ends the transaction. -/
def message (content : Bytes) (s : Session .data) : Outcome .connected :=
  s.follow do accepted (← exchange (Message.encode content) s.ioLimit)

def noop (s : Session stage) : Outcome stage := s.command .noop

def quit (s : Session stage) : Except Error Unit × Wire.Stream :=
  match request .quit s.ioLimit s.stream with
  | (.error e, stream) => (.error e, stream)
  | (.ok reply, stream) =>
    match reply.error? with
    | none => (.ok (), stream.shutDown)
    | some e => (.error e, stream)

end Session
end MailClient.Smtp
