import MailClient.Sasl.Authentication
import MailClient.Sasl.Token
import MailClient.Smtp.Request

/-! The AUTH command of RFC 4954: challenges come in replies with the code 334, and each is
answered by a line. -/
namespace MailClient.Smtp

structure Dialogue (τ : Type) where
  stream : Wire.Stream
  limit : Duration
  underWay : Bool
  tokens : τ

namespace Dialogue

variable {τ : Type}

def challengeCode : Nat := 334

def lift (m : Action Wire.Stream Error α) : Action (Dialogue τ) Error α := fun d =>
  let (r, stream) := m d.stream
  (r, { d with stream := stream })

def judge (reply : Reply) : Except Error Sasl.ServerStep :=
  if reply.code = challengeCode then .ok (.challenge (Text.trim reply.firstLine))
  else if reply.isSuccess then .ok .success
  else if reply.code = Error.closingDown then .error reply.refusal
  else if ReplyClass.ofCode reply.code = .more then
    .error (.violation (.unexpectedReply reply.code))
  else .ok (.rejected (toString reply.code ++ " " ++ reply.text))

/-- Takes a reply into account. Only a challenge leaves the exchange open. -/
def settle (reply : Reply) : Action (Dialogue τ) Error Sasl.ServerStep := fun d =>
  (judge reply, { d with underWay := d.underWay && reply.code == challengeCode })

def readStep : Action (Dialogue τ) Error Sasl.ServerStep := fun d =>
  match lift (readReply d.limit) d with
  | (.error e, d) => (.error e, d)
  | (.ok reply, d) => settle reply d

def start (scheme : Sasl.Scheme) (initial : Option String) :
    Action (Dialogue τ) Error Sasl.ServerStep := fun d =>
  match lift (write (Command.auth scheme initial).encode d.limit) d with
  | (.error e, d) => (.error e, d)
  | (.ok (), d) => readStep { d with underWay := true }

def respond (data : String) : Action (Dialogue τ) Error Sasl.ServerStep := fun d =>
  match lift (write (Bytes.line data) d.limit) d with
  | (.error e, d) => (.error e, d)
  | (.ok (), d) => readStep d

def cancel : Action (Dialogue τ) Error Unit := fun d =>
  if !d.underWay then (.ok (), d)
  else match respond "*" d with
    | (.error e, d) => (.error e, d)
    | (.ok (.challenge _), d) => (.error (.violation .endlessChallenges), d)
    | (.ok _, d) => (.ok (), d)

def transport : Sasl.Transport (Dialogue τ) Error := ⟨start, respond, cancel, .auth⟩

/-- Token requests take their time from the clock of the stream. -/
def tokenProvider (service : Sasl.TokenService τ) : Sasl.TokenProvider (Dialogue τ) where
  get identity limit := fun d =>
    let ((r, elapsed), tokens) := service.get identity limit d.tokens
    (r, { d with stream := d.stream.wait elapsed, tokens := tokens })
  invalidate identity := fun d => { d with tokens := service.invalidate identity d.tokens }

end Dialogue

def authenticate {τ : Type} (host : String) (mechanisms : List Sasl.Scheme)
    (strategy : Sasl.Strategy) (service : Sasl.TokenService τ) (limit : Duration) :
    Action (Wire.Stream × τ) Error Sasl.Scheme := fun (stream, tokens) =>
  let authenticator : Sasl.Authenticator (Dialogue τ) :=
    { host := host, strategy := strategy, tokens := Dialogue.tokenProvider service }
  let (r, _, d) := authenticator.run Dialogue.transport (mechanisms.map .offer)
    (.fresh, ⟨stream, limit, false, tokens⟩)
  match r with
  | .ok (.authenticated scheme) => (.ok scheme, d.stream, d.tokens)
  | .ok .unauthenticated => (.error (.unsupported "AUTH"), d.stream, d.tokens)
  | .error e => (.error e, d.stream, d.tokens)

end MailClient.Smtp
