import MailClient.Text.Blank
import MailClient.Text.Case

/-! The SASL mechanisms this client speaks. -/
namespace MailClient.Sasl

inductive Scheme where
  | plain
  | login
  | cramMd5
  | xoauth2
  | oauthBearer
  | external
  deriving DecidableEq, Repr

namespace Scheme

/-- All schemes, the strongest first. -/
def all : List Scheme := [.xoauth2, .oauthBearer, .external, .cramMd5, .plain, .login]

def name : Scheme → String
  | .plain => "PLAIN"
  | .login => "LOGIN"
  | .cramMd5 => "CRAM-MD5"
  | .xoauth2 => "XOAUTH2"
  | .oauthBearer => "OAUTHBEARER"
  | .external => "EXTERNAL"

/-- Reads a name in any letter case; blanks around it do not count. -/
def ofName? (s : String) : Option Scheme :=
  all.find? fun scheme => Text.upper (Text.trim s) == scheme.name

/-- Stronger schemes are tried first: tokens and digests rank above plain passwords. -/
def strength : Scheme → Nat
  | .xoauth2 => 60
  | .oauthBearer => 50
  | .external => 40
  | .cramMd5 => 30
  | .plain => 20
  | .login => 10

def usesToken (s : Scheme) : Bool := s == .xoauth2 || s == .oauthBearer

def speaksFirst (s : Scheme) : Bool := s != .cramMd5 && s != .login

/-- Client messages after which a further challenge means that the server said no. The token
schemes have one for the reply to an error document. -/
def turns : Scheme → Nat
  | .plain | .external | .cramMd5 => 1
  | .xoauth2 | .oauthBearer | .login => 2

end Scheme
end MailClient.Sasl
