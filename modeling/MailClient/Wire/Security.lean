/-! How the traffic with a server is encrypted. -/
namespace MailClient.Wire

/-- Not at all, on request after the greeting, or from the start. -/
inductive Security where
  | plain
  | startTls
  | implicit
  deriving DecidableEq, Repr

namespace Security

def name : Security → String
  | .plain => "none"
  | .startTls => "starttls"
  | .implicit => "implicit"

def ofName? (s : String) : Option Security :=
  [plain, startTls, implicit].find? fun security => security.name == s

end Security
end MailClient.Wire
