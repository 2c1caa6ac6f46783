import MailClient.Digest.Hmac
import MailClient.Json.Reader
import MailClient.Json.Record
import MailClient.Sasl.Error

/-! The messages of each scheme as base64 text, ready for the wire. -/
namespace MailClient.Sasl.Payload

def encode (s : String) : String := Base64.encodeText (Bytes.ofText s)

/-- RFC 4616: an empty authorization identity, the user and the password. -/
def plain (user password : String) : String := encode ("\x00" ++ user ++ "\x00" ++ password)

def login (value : String) : String := encode value

/-- RFC 2195: the user and the digest of the challenge keyed by the password. -/
def cramMd5 (user password challenge : String) : Except Error String :=
  match Base64.decodeText challenge with
  | .error problem => .error (.invalidChallenge .cramMd5 problem)
  | .ok text =>
    .ok (encode (user ++ " " ++ Digest.hexText (Digest.hmac (Bytes.ofText password) text)))

def bearer (token : String) : String := "\x01auth=Bearer " ++ token ++ "\x01\x01"

def xoauth2 (user token : String) : String := encode ("user=" ++ user ++ bearer token)

/-- RFC 7628 with the user as authorization identity. -/
def oauthBearer (user token : String) : String := encode ("n,a=" ++ user ++ "," ++ bearer token)

/-- RFC 4422, appendix A: the authorization identity. -/
def external (user : String) : String := encode user

/-- The text of a challenge; octets that are no UTF-8 are replaced. -/
def decodeChallenge (scheme : Scheme) (data : String) : Except Error String :=
  match Base64.decodeText data with
  | .error problem => .error (.invalidChallenge scheme problem)
  | .ok bytes => .ok (Text.Utf8.text bytes)

/-- The document in which a server explains why it refused a bearer token. -/
structure TokenReport where
  status : String
  schemes : String
  scope : Option String
  deriving DecidableEq, Repr

namespace TokenReport

def ofJson? (v : Json) : Option TokenReport := do
  let c ← Json.columns? ["status", "schemes", "scope"] false v
  let status ← c.read 0 none Json.text?
  let schemes ← c.read 1 (some "") Json.text?
  let scope ← c.read 2 (some none) (Json.nullable Json.text?)
  return ⟨status, schemes, scope⟩

def ofChallenge (challenge : String) : Except Error TokenReport := do
  let document ← decodeChallenge .xoauth2 challenge
  match Json.parse? document >>= ofJson? with
  | some report => return report
  | none => throw .malformedDocument

def isInvalidToken (r : TokenReport) : Bool := r.status == "401" || r.status == "400"

end TokenReport
end MailClient.Sasl.Payload
