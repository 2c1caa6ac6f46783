import MailClient.Base64
import MailClient.Duration
import MailClient.Sasl.Credentials

/-! Why an authentication did not succeed. -/
namespace MailClient.Sasl

inductive Error where
  | unsupportedCredentials (scheme : Scheme) (credentials : String)
  | invalidChallenge (scheme : Scheme) (problem : Base64.Problem)
  | tokenUnavailable (identity : String)
  | tokenTimeout (limit : Duration)
  | noUsableOption (offered : String)
  | rejected (reason : String)
  | alreadyFailed
  | transport (reason : String)
  | malformedDocument
  deriving DecidableEq, Repr

namespace Error

def message : Error → String
  | .unsupportedCredentials scheme credentials =>
    scheme.name ++ " cannot use the configured credentials: " ++ credentials ++ " credentials"
  | .invalidChallenge scheme problem =>
    "Invalid " ++ scheme.name ++ " challenge: " ++ problem.message
  | .tokenUnavailable identity => "No token available for " ++ identity
  | .tokenTimeout limit => "Token fetch timed out after " ++ limit.text
  | .noUsableOption offered => "No usable authentication option (offered: " ++ offered ++ ")"
  | .rejected reason => "Authentication rejected by server: " ++ reason
  | .alreadyFailed => "Authentication already failed on this connection"
  | .transport reason => "Transport error during authentication: " ++ reason
  | .malformedDocument => "JSON error: malformed document"

/-- Whether the failure concerns one candidate only, so that the next may still succeed. -/
def isPerCandidate : Error → Bool
  | .unsupportedCredentials .. | .invalidChallenge .. | .tokenUnavailable _
  | .tokenTimeout _ => true
  | _ => false

end Error
end MailClient.Sasl
