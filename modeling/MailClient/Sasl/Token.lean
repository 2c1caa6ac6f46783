import MailClient.Sasl.Negotiation
import MailClient.Json.Record
import MailClient.Timestamp

/-! Access tokens, and a cache of them in front of a source that can issue new ones. -/
namespace MailClient.Sasl

structure Token where
  accessToken : String
  tokenType : String
  expiresAt : Option Timestamp
  deriving DecidableEq, Repr

namespace Token

def bearer (accessToken : String) : Token := ⟨accessToken, "Bearer", none⟩

/-- A token counts as expired a minute before it is. -/
def isExpired (now : Timestamp) (t : Token) : Bool :=
  match t.expiresAt with
  | none => false
  | some e => !(now.addSeconds 60).before e

/-- A list must name the expiry, an object need not. -/
def ofJson? (v : Json) : Option Token := do
  let c ← Json.columns? ["access_token", "token_type", "expires_at"] false v
  let accessToken ← c.read 0 none Json.text?
  let tokenType ← c.read 1 none Json.text?
  let expiry := Json.nullable fun v => v.text? >>= Timestamp.parse?
  let expiresAt ← c.read 2 (if c.positional then none else some none) expiry
  return ⟨accessToken, tokenType, expiresAt⟩

end Token

/-- Tokens on request. A request takes time; it is part of the answer. -/
structure TokenService (τ : Type) where
  get : (identity : String) → (limit : Duration) → τ → (Except Error String × Duration) × τ
  invalidate : (identity : String) → τ → τ

namespace TokenService

def empty (τ : Type) : TokenService τ where
  get identity _ := fun t => ((.error (.tokenUnavailable identity), 0), t)
  invalidate _ := id

/-- The service seen by itself, where the time that a request takes does not matter. -/
def timeless {τ : Type} (service : TokenService τ) : TokenProvider τ where
  get identity limit := fun t =>
    let ((r, _), t') := service.get identity limit t
    (r, t')
  invalidate := service.invalidate

end TokenService

abbrev TokenSource (τ : Type) := (identity : String) → τ → (Except Error Token × Duration) × τ

structure TokenCache (τ : Type) where
  entries : List (String × Token)
  source : τ

namespace TokenCache

variable {τ : Type}

def find? (c : TokenCache τ) (identity : String) : Option Token :=
  (c.entries.find? (·.1 == identity)).map (·.2)

def fresh? (c : TokenCache τ) (now : Timestamp) (identity : String) : Option Token :=
  (c.find? identity).filter fun t => !t.isExpired now

def erase (identity : String) (c : TokenCache τ) : TokenCache τ :=
  { c with entries := c.entries.filter (·.1 != identity) }

def insert (c : TokenCache τ) (identity : String) (token : Token) : TokenCache τ :=
  { c with entries := (identity, token) :: (c.erase identity).entries }

/-- A token that has not expired is given out as it is; otherwise the source is asked. What comes
in time is kept, and a failure leaves the cache as it was. -/
def get (source : TokenSource τ) (now : Timestamp) (identity : String) (limit : Duration)
    (c : TokenCache τ) : (Except Error String × Duration) × TokenCache τ :=
  match c.fresh? now identity with
  | some token => ((.ok token.accessToken, 0), c)
  | none =>
    let ((r, elapsed), s) := source identity c.source
    let c := { c with source := s }
    if limit < elapsed then ((.error (.tokenTimeout limit), limit), c)
    else match r with
      | .ok token => ((.ok token.accessToken, elapsed), c.insert identity token)
      | .error e => ((.error e, elapsed), c)

def service (source : TokenSource τ) (now : Timestamp) : TokenService (TokenCache τ) where
  get := get source now
  invalidate := erase

end TokenCache
end MailClient.Sasl
