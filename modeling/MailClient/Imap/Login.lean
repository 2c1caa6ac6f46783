import MailClient.Imap.Conversation
import MailClient.Sasl.Authentication
import MailClient.Sasl.Token

/-! Authentication: the AUTHENTICATE command with SASL, or the LOGIN command where the server
names no SASL mechanism. -/
namespace MailClient.Imap

structure Dialogue (τ : Type) where
  connection : Connection
  tag : Option Tag
  /-- Whether the first message may go out with the command. -/
  inline : Bool
  tokens : τ

namespace Dialogue

variable {τ : Type}

def lift (m : Action Connection Error α) : Action (Dialogue τ) Error α := fun d =>
  let (r, c) := m d.connection
  (r, { d with connection := c })

def answerTo (tag : Tag) (c : Connection) :
    Except Error (Sasl.ServerStep × Option Tag) × Connection :=
  match h : c.readResponse c.ioLimit with
  | (.error e, c') => (.error e, c')
  | (.ok (.continuation text), c') => (.ok (.challenge text, some tag), c')
  | (.ok (.tagged completed status _ text), c') =>
    if completed = tag then
      (.ok (if status = .ok then .success else .rejected text, none), c')
    else
      have := Connection.unread_lt_of_readResponse h
      answerTo tag c'
  | (.ok (.untagged _), c') =>
    have := Connection.unread_lt_of_readResponse h
    answerTo tag c'
termination_by c.unread

def readStep : Action (Dialogue τ) Error Sasl.ServerStep := fun d =>
  match d.tag with
  | none => (.error (.misuse .noExchange), d)
  | some tag =>
    match answerTo tag d.connection with
    | (.error e, c) => (.error e, { d with connection := c })
    | (.ok (step, tag), c) => (.ok step, { d with connection := c, tag := tag })

def respond (data : String) : Action (Dialogue τ) Error Sasl.ServerStep := do
  lift (Connection.sendLine data)
  readStep

/-- The command that names a scheme. An empty first message is written as an equals sign. -/
def authenticateCommand (scheme : Sasl.Scheme) (initial : Option String) : Command :=
  let arguments := match initial with
    | none => []
    | some data => [Argument.plain (if data.isEmpty then "=" else data)]
  ⟨"AUTHENTICATE", .plain scheme.name :: arguments, true⟩

/-- Starts a scheme. A first message that may not go out with the command answers the first
challenge. -/
def start (scheme : Sasl.Scheme) (initial : Option String) :
    Action (Dialogue τ) Error Sasl.ServerStep := fun d =>
  let (tag, c) := d.connection.nextTag
  let sentInline := if d.inline then initial else none
  match c.send tag (authenticateCommand scheme sentInline) with
  | (.error e, c) => (.error e, { d with connection := c })
  | (.ok (), c) =>
    let d := { d with connection := c, tag := some tag }
    match readStep d with
    | (.ok (.challenge data), d) =>
      match initial, sentInline with
      | some message, none => respond message d
      | _, _ => (.ok (.challenge data), d)
    | r => r

def cancel : Action (Dialogue τ) Error Unit := fun d =>
  match d.tag with
  | none => (.ok (), d)
  | some _ =>
    match respond "*" d with
    | (.error e, d) => (.error e, d)
    | (.ok (.challenge _), d) =>
      (.error (.violation .endlessChallenges), { d with connection := d.connection.poison })
    | (.ok _, d) => (.ok (), d)

def transport : Sasl.Transport (Dialogue τ) Error := ⟨start, respond, cancel, .auth⟩

/-- Token requests take their time from the clock of the stream. -/
def tokenProvider (service : Sasl.TokenService τ) : Sasl.TokenProvider (Dialogue τ) where
  get identity limit := fun d =>
    let ((r, elapsed), tokens) := service.get identity limit d.tokens
    let c := { d.connection with stream := d.connection.stream.wait elapsed }
    (r, { d with connection := c, tokens := tokens })
  invalidate identity := fun d => { d with tokens := service.invalidate identity d.tokens }

end Dialogue

namespace Connection

variable {τ : Type}

def login (user password : String) : Action Connection Error Unit := fun c =>
  match execute ⟨"LOGIN", [.ofText user, .ofText password], true⟩ c with
  | (.ok _, c) => (.ok (), c)
  | (.error (.no text), c) => (.error (.auth (.rejected text)), c)
  | (.error e, c) => (.error e, c)

/-- Logs in with the first password that the strategy allows for a plain scheme. -/
def loginWith (host : String) (strategy : Sasl.Strategy) :
    Action Connection Error Sasl.Outcome := fun c =>
  let passwords := (strategy host [.offer .plain, .offer .login]).filterMap fun candidate =>
    match candidate.credentials with
    | .password user secret => some (user, secret)
    | _ => none
  match passwords with
  | [] => (.error (.auth (.noUsableOption "LOGIN")), c)
  | (user, secret) :: _ =>
    match login user secret c with
    | (.ok (), c) => (.ok (.authenticated .login), c)
    | (.error e, c) => (.error e, c)

def runSasl (host : String) (strategy : Sasl.Strategy) (service : Sasl.TokenService τ)
    (offered : List Sasl.Challenge) : Action (Connection × τ) Error Sasl.Outcome := fun (c, t) =>
  let authenticator : Sasl.Authenticator (Dialogue τ) :=
    { host := host, strategy := strategy, tokens := Dialogue.tokenProvider service }
  let dialogue : Dialogue τ := ⟨c, none, c.hasCapability "SASL-IR", t⟩
  let (r, _, d) := authenticator.run Dialogue.transport offered (.fresh, dialogue)
  (r, d.connection, d.tokens)

def authenticate (host : String) (strategy : Sasl.Strategy) (service : Sasl.TokenService τ) :
    Action (Connection × τ) Error Sasl.Outcome := fun (c, t) =>
  if c.preauth then (.ok .unauthenticated, c, t)
  else match learnCapabilities c with
    | (.error e, c) => (.error e, c, t)
    | (.ok _, c) =>
      match Sasl.Challenge.offers c.authMechanisms with
      | [] =>
        if c.hasCapability "LOGINDISABLED" then
          (.error (.auth (.noUsableOption "none (LOGINDISABLED)")), c, t)
        else
          let (r, c) := loginWith host strategy c
          (r, c, t)
      | offered => runSasl host strategy service offered (c, t)

end Connection
end MailClient.Imap
