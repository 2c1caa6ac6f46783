import MailClient.Imap.Tag
import MailClient.Text.Utf8

/-! Command lines. A literal argument is announced by its length; its octets follow at once if
the server has agreed to that, and otherwise only when the server asks for them. -/
namespace MailClient.Imap

/-- An argument as it goes on the wire: text as it stands, or a literal. -/
inductive Argument where
  | plain (text : String)
  | literal (data : Bytes)
  deriving DecidableEq, Repr

namespace Argument

def quoteChars : List Char → List Char
  | [] => []
  | c :: cs => if c = '"' || c = '\\' then '\\' :: c :: quoteChars cs else c :: quoteChars cs

/-- A text in quotes, with a backslash before quotes and backslashes. -/
def quoted (s : String) : Argument := .plain (String.ofList ('"' :: quoteChars s.toList ++ ['"']))

def needsLiteral (b : UInt8) : Bool := b == 0 || b == Bytes.cr || b == Bytes.lf || 0x80 ≤ b

def needsQuotes (b : UInt8) : Bool :=
  [' ', '"', '\\', '(', ')', '\x7b', '%', '*', ']'].any (fun c => octet c == b) ||
    b < 0x20 || b == 0x7F

/-- A text as an atom, a quoted string or a literal, the first of these that can hold it. -/
def ofText (s : String) : Argument :=
  let bs := Bytes.ofText s
  if bs.any needsLiteral then .literal bs
  else if bs.isEmpty || bs.any needsQuotes then quoted s
  else .plain s

def isLiteral : Argument → Bool
  | .literal _ => true
  | .plain _ => false

end Argument

structure Command where
  name : String
  arguments : List Argument
  /-- Whether the arguments are kept out of logs. -/
  sensitive : Bool
  deriving DecidableEq, Repr

namespace Command

def named (name : String) : Command := ⟨name, [], false⟩

def withArgument (c : Command) (a : Argument) : Command :=
  { c with arguments := c.arguments ++ [a] }

def literalCount (c : Command) : Nat := c.arguments.countP Argument.isLiteral

/-- The announcement of a literal; a plus sign announces one that does not wait. -/
def announcement (size : Nat) (waits : Bool) : Bytes :=
  Bytes.line ("\x7b" ++ toString size ++ (if waits then "" else "+") ++ "\x7d")

/-- A command on the wire: what goes out at once, and what waits for the server to ask. -/
structure Encoding where
  first : Bytes
  later : List Bytes
  deriving DecidableEq, Repr

def chunksAfter (waits : Bool) (chunk : Bytes) : List Argument → Encoding
  | [] => ⟨chunk ++ Bytes.crlf, []⟩
  | .plain text :: rest => chunksAfter waits (chunk ++ octet ' ' :: Bytes.ofText text) rest
  | .literal data :: rest =>
    let announced := chunk ++ octet ' ' :: announcement data.length waits
    if waits then
      let e := chunksAfter waits data rest
      ⟨announced, e.first :: e.later⟩
    else chunksAfter waits (announced ++ data) rest

/-- The command in chunks: each but the first begins with the octets of a literal. -/
def encode (c : Command) (tag : Tag) (waits : Bool) : Encoding :=
  chunksAfter waits (Bytes.ofText tag.text ++ octet ' ' :: Bytes.ofText c.name) c.arguments

end Command
end MailClient.Imap
