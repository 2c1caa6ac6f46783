import MailClient.Imap.Literal
import MailClient.Imap.Tag
import MailClient.Text.Case
import MailClient.Text.Decimal

/-! What a server sends: completions of commands, untagged data and notices, and requests to
continue. -/
namespace MailClient.Imap

inductive Token where
  /-- Unquoted text: words, numbers, flags, `NIL`. -/
  | atom (text : String)
  | quoted (text : String)
  | literal (body : Literal)
  /-- A group in parentheses or in brackets. -/
  | list (items : List Token)

namespace Token

def text? : Token → Option String
  | .atom s => some s
  | .quoted s => some s
  | .literal body => body.text?
  | .list _ => none

def atom? : Token → Option String
  | .atom s => some s
  | _ => none

def number? (t : Token) : Option Nat := t.atom? >>= Text.unsigned? (Nat.pow 2 32)

def list? : Token → Option (List Token)
  | .list items => some items
  | _ => none

def literal? : Token → Option Literal
  | .literal body => some body
  | _ => none

def isKeyword (word : String) (t : Token) : Bool :=
  match t.atom? with
  | some s => Text.sameWord s word
  | none => false

def isNil (t : Token) : Bool := t.isKeyword "NIL"

end Token

inductive Status where
  | ok
  | no
  | bad
  | preauth
  | bye
  deriving DecidableEq, Repr

namespace Status

def keyword : Status → String
  | .ok => "OK"
  | .no => "NO"
  | .bad => "BAD"
  | .preauth => "PREAUTH"
  | .bye => "BYE"

def all : List Status := [.ok, .no, .bad, .preauth, .bye]

def ofKeyword? (s : String) : Option Status :=
  all.find? fun status => Text.upper s == status.keyword

end Status

/-- An untagged response. A status response has its keyword for its only token, and a text. -/
structure Untagged where
  tokens : List Token
  code : Option (List Token)
  text : Option String

namespace Untagged

def status? (u : Untagged) : Option Status := do
  let _ ← u.text
  let first ← u.tokens.head?
  Status.ofKeyword? (← first.atom?)

/-- The message number in front of a keyword. -/
def number? (u : Untagged) : Option Nat := u.tokens.head? >>= Token.number?

def keywordIndex (u : Untagged) : Nat := if u.number?.isSome then 1 else 0

def keyword? (u : Untagged) : Option String := u.tokens[u.keywordIndex]? >>= Token.atom?

def arguments (u : Untagged) : List Token := u.tokens.drop (u.keywordIndex + 1)

end Untagged

inductive Response where
  | tagged (tag : Tag) (status : Status) (code : Option (List Token)) (text : String)
  | untagged (u : Untagged)
  | continuation (text : String)

namespace Response

def keyword? : Response → Option String
  | .untagged u => u.keyword?
  | _ => none

def folderChanges : List String := ["EXISTS", "EXPUNGE", "FETCH", "RECENT", "VANISHED"]

def isFolderChange (r : Response) : Bool :=
  match r.keyword? with
  | some word => folderChanges.any (Text.sameWord word)
  | none => false

def atoms (tokens : List Token) : List String := tokens.filterMap Token.atom?

def codeCapabilities? : Option (List Token) → Option (List String)
  | some (first :: rest) => if first.isKeyword "CAPABILITY" then some (atoms rest) else none
  | _ => none

def capabilities? : Response → Option (List String)
  | .untagged u =>
    if u.text.isNone then
      match u.keyword? with
      | some word => if Text.sameWord word "CAPABILITY" then some (atoms u.arguments) else none
      | none => none
    else codeCapabilities? u.code
  | .tagged _ _ code _ => codeCapabilities? code
  | .continuation _ => none

end Response
end MailClient.Imap
