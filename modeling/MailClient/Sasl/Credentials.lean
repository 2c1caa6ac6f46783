import MailClient.Sasl.Scheme
import MailClient.Text.Quoted

/-! What a user can prove an identity with, and the offers of a server. -/
namespace MailClient.Sasl

inductive Credentials where
  | password (user secret : String)
  | token (user : String)
  | certificate (user : String)
  deriving DecidableEq, Repr

namespace Credentials

def user : Credentials → String
  | .password u _ => u
  | .token u => u
  | .certificate u => u

def kindName : Credentials → String
  | .password .. => "password"
  | .token _ => "token"
  | .certificate _ => "certificate"

/-- A text for logs, which shows no password. -/
def display : Credentials → String
  | .password u _ =>
    "Password \x7b username: " ++ Text.quoted u ++ ", password: \"<redacted>\" \x7d"
  | .token u => "Token \x7b username: " ++ Text.quoted u ++ " \x7d"
  | .certificate u => "Certificate \x7b username: " ++ Text.quoted u ++ " \x7d"

end Credentials

structure Candidate where
  scheme : Scheme
  credentials : Credentials
  deriving DecidableEq, Repr

/-- An offer of a scheme, or a turn of the server within it, which carries base64 data. -/
structure Challenge where
  scheme : Scheme
  data : Option String
  deriving DecidableEq, Repr

namespace Challenge

def offer (scheme : Scheme) : Challenge := ⟨scheme, none⟩

def turn (scheme : Scheme) (data : String) : Challenge := ⟨scheme, some data⟩

def offers (names : List String) : List Challenge := (names.filterMap Scheme.ofName?).map offer

end Challenge
end MailClient.Sasl
