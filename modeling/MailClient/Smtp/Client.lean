import MailClient.Smtp.Session

/-! A client that is told what to do one operation at a time, and finds out whether the stage of
its session has the operation. -/
namespace MailClient.Smtp

inductive Operation (τ : Type) where
  | hello
  | authenticate (host : String) (strategy : Sasl.Strategy) (service : Sasl.TokenService τ)
  | mail (sender : String)
  | rcpt (recipient : String)
  | reset
  | data
  | message (content : Bytes)
  | noop
  | quit

/-- A session in some stage, or the stream that is left of one. -/
inductive Client where
  | live (stage : Stage) (s : Session stage)
  | gone (stream : Wire.Stream)

namespace Client

def stream : Client → Wire.Stream
  | .live _ s => s.stream
  | .gone stream => stream

def withStream (stream : Wire.Stream) : Client → Client
  | .live stage s => .live stage { s with stream := stream }
  | .gone _ => .gone stream

def ofOutcome {stage : Stage} : Outcome stage → Option (Except Error Unit) × Client
  | .next s => (some (.ok ()), .live stage s)
  | .lost e stream => (some (.error e), .gone stream)

/-- Gives an address to an operation. A text that is no address uses the session up as well. -/
def addressed {a b : Stage} (text : String) (s : Session a) (f : Address → Outcome b) :
    Option (Except Error Unit) × Client :=
  match Address.ofText text with
  | .ok address => ofOutcome (f address)
  | .error e => (some (.error e), .gone s.stream)

/-- Carries an operation out. There is no result if the stage does not have it. -/
def perform {τ : Type} (o : Operation τ) (c : Client) (tokens : τ) :
    Option (Except Error Unit) × Client × τ :=
  let keeping (r : Option (Except Error Unit) × Client) := (r.1, r.2, tokens)
  match c, o with
  | .live .connected s, .hello => keeping (ofOutcome s.hello)
  | .live .connected s, .authenticate host strategy service =>
    let (outcome, tokens) := s.authenticate host strategy service tokens
    let (r, c) := ofOutcome outcome
    (r, c, tokens)
  | .live .connected s, .mail sender => keeping (addressed sender s fun a => s.mail a)
  | .live .authenticated s, .mail sender => keeping (addressed sender s fun a => s.mail a)
  | .live .mail s, .rcpt recipient => keeping (addressed recipient s fun a => s.rcpt a)
  | .live .recipient s, .rcpt recipient => keeping (addressed recipient s fun a => s.rcpt a)
  | .live .mail s, .reset => keeping (ofOutcome s.reset)
  | .live .recipient s, .reset => keeping (ofOutcome s.reset)
  | .live .recipient s, .data => keeping (ofOutcome s.data)
  | .live .data s, .message content => keeping (ofOutcome (s.message content))
  | .live _ s, .noop => keeping (ofOutcome s.noop)
  | .live _ s, .quit =>
    let (r, stream) := s.quit
    keeping (some r, .gone stream)
  | c, _ => (none, c, tokens)

end Client
end MailClient.Smtp
