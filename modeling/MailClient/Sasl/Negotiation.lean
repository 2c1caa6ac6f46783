import MailClient.Sasl.Exchange
import MailClient.Sasl.Strategy

/-! The state of authentication on one connection. An offer queues candidates, the first whose
opening message can be built becomes the active exchange, and turns of the server go to it.
Failure is final until a reset. -/
namespace MailClient.Sasl

inductive Phase where
  | unchallenged
  | challenged
  | handshake
  | success
  | failure
  deriving DecidableEq, Repr

inductive Verdict where
  | noChallenge
  | respond
  | refused
  deriving DecidableEq, Repr

inductive ClientMessage where
  | start (scheme : Scheme) (initial : Option String)
  | answer (data : String)
  deriving DecidableEq, Repr

structure TokenProvider (σ : Type) where
  get : (identity : String) → (limit : Duration) → Action σ Error String
  invalidate : (identity : String) → σ → σ

structure Negotiation where
  phase : Phase
  active : Option Exchange
  queue : List Candidate
  deriving DecidableEq, Repr

namespace Negotiation

def fresh : Negotiation := ⟨.unchallenged, none, []⟩

def failed : Negotiation := ⟨.failure, none, []⟩

def fail (_ : Negotiation) : Negotiation := failed

def reset (_ : Negotiation) : Negotiation := fresh

def succeed (n : Negotiation) : Negotiation := { n with phase := .success, queue := [] }

def select (host : String) (offered : List Challenge) (strategy : Strategy) (n : Negotiation) :
    Verdict × Negotiation :=
  match strategy host offered with
  | [] => (.refused, n.fail)
  | candidates => (.respond, { n with phase := .challenged, queue := candidates })

def advance (n : Negotiation) (x : Exchange) (c : Challenge) : Verdict × Negotiation :=
  let x := x.challenge c
  if x.complete then (.refused, n.fail)
  else (.respond, { n with phase := .handshake, active := some x })

/-- Takes what the server offers or asks. While a scheme is active, a challenge for it goes to
the exchange; any other set of challenges starts the selection again. -/
def challenge (host : String) (offered : List Challenge) (strategy : Strategy) (n : Negotiation) :
    Verdict × Negotiation :=
  if offered.isEmpty then (.noChallenge, n)
  else match n.phase with
    | .failure => (.refused, n)
    | .unchallenged => select host offered strategy n
    | .success => select host offered strategy n.reset
    | .challenged | .handshake =>
      match n.active with
      | none => select host offered strategy n.reset
      | some x =>
        match offered.find? fun c => c.scheme == x.scheme with
        | none => select host offered strategy n.reset
        | some c => advance n x c

variable {σ : Type}

/-- Opens an exchange; a token scheme asks for its token first. -/
def openExchange (tokens : TokenProvider σ) (limit : Duration) (candidate : Candidate) :
    Action σ Error (Option String × Exchange) := fun s =>
  let x := Exchange.start candidate
  let begin (token : Option String) : Except Error (Option String × Exchange) :=
    match x.answer token with
    | (.ok initial, x') => .ok (initial, x')
    | (.error e, _) => .error e
  if candidate.scheme.usesToken then
    match tokens.get candidate.credentials.user limit s with
    | (.ok token, s') => (begin (some token), s')
    | (.error e, s') => (.error e, s')
  else (begin none, s)

/-- Opens an exchange with the first candidate whose opening message can be built. -/
def openFirst (tokens : TokenProvider σ) (limit : Duration) :
    List Candidate → σ → Option (Option String × Exchange × List Candidate) × σ
  | [], s => (none, s)
  | candidate :: rest, s =>
    match openExchange tokens limit candidate s with
    | (.ok (initial, x), s') => (some (initial, x, rest), s')
    | (.error _, s') => openFirst tokens limit rest s'

/-- The next message to send, if there is one. A candidate that cannot open is passed over; when
none is left the authentication has failed. -/
def next (tokens : TokenProvider σ) (limit : Duration) :
    Action (Negotiation × σ) Error (Option ClientMessage) := fun (n, s) =>
  match n.phase with
  | .challenged =>
    match openFirst tokens limit n.queue s with
    | (some (initial, x, rest), s') =>
      (.ok (some (.start x.scheme initial)), { n with active := some x, queue := rest }, s')
    | (none, s') => (.ok none, n.fail, s')
  | .handshake =>
    match n.active with
    | none => (.ok none, n.fail, s)
    | some x =>
      match x.answer none with
      | (.ok data, x') => (.ok (some (.answer (data.getD ""))), { n with active := some x' }, s)
      | (.error e, _) => (.error e, n.fail, s)
  | .unchallenged | .success | .failure => (.ok none, n, s)

def refresh (tokens : TokenProvider σ) (limit : Duration) :
    Action (Negotiation × σ) Error ClientMessage := fun (n, s) =>
  match n.active.filter (·.scheme.usesToken) with
  | none => (.error .alreadyFailed, n.fail, s)
  | some x =>
    match openExchange tokens limit x.candidate s with
    | (.ok (initial, x'), s') =>
      (.ok (.start x.scheme initial), { n with phase := .challenged, active := some x' }, s')
    | (.error e, s') => (.error e, n.fail, s')

end Negotiation
end MailClient.Sasl
