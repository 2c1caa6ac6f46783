import MailClient.Action
import MailClient.Sasl.Payload

/-! One attempt with one candidate: which message the client sends next, and how a turn of the
server bears on it. -/
namespace MailClient.Sasl

structure Exchange where
  candidate : Candidate
  sent : UInt8
  pending : Option String
  /-- Set when a challenge arrives after the last turn of the client. -/
  complete : Bool
  deriving DecidableEq, Repr

namespace Exchange

def start (candidate : Candidate) : Exchange := ⟨candidate, 0, none, false⟩

def scheme (x : Exchange) : Scheme := x.candidate.scheme

def user (x : Exchange) : String := x.candidate.credentials.user

def challenge (x : Exchange) (c : Challenge) : Exchange :=
  if x.scheme.turns ≤ x.sent.toNat then { x with pending := none, complete := true }
  else { x with pending := some (c.data.getD "") }

/-- The message that the candidate sends in answer to `pending`, with a token at hand or not.
There is none before the first challenge of a scheme in which the server speaks first. -/
def message (candidate : Candidate) (sent : UInt8) (pending token : Option String) :
    Except Error (Option String) :=
  match candidate.scheme, candidate.credentials with
  | .plain, .password user secret => .ok (some (Payload.plain user secret))
  | .login, .password user secret =>
    match pending with
    | none => .ok none
    | some _ => .ok (some (Payload.login (if sent = 0 then user else secret)))
  | .cramMd5, .password user secret =>
    match pending with
    | none => .ok none
    | some data => (Payload.cramMd5 user secret data).map some
  | .xoauth2, .token user =>
    match pending, token with
    | some _, _ => .ok (some "")
    | none, some t => .ok (some (Payload.xoauth2 user t))
    | none, none => .error (.tokenUnavailable user)
  | .oauthBearer, .token user =>
    match pending, token with
    | some _, _ => .ok (some "")
    | none, some t => .ok (some (Payload.oauthBearer user t))
    | none, none => .error (.tokenUnavailable user)
  | .external, credentials => .ok (some (Payload.external credentials.user))
  | scheme, credentials => .error (.unsupportedCredentials scheme credentials.kindName)

/-- Answers the pending challenge, which is used up even if there is no answer to it. -/
def answer (token : Option String) : Action Exchange Error (Option String) := fun x =>
  let r := message x.candidate x.sent x.pending token
  let sent := match r with
    | .ok (some _) => x.sent + 1
    | _ => x.sent
  (r, { x with sent := sent, pending := none })

def restart (x : Exchange) : Exchange := start x.candidate

end Exchange
end MailClient.Sasl
