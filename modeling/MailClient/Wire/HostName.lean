import MailClient.Text.Decimal

/-! Names under which a server can prove its identity: domain names and IP addresses. -/
namespace MailClient.Wire.HostName

def isLetter (c : Char) : Bool := c.isAlpha || c == '_'

/-- Up to 63 letters, digits and hyphens, with no hyphen at either end. -/
def isLabel (cs : List Char) : Bool :=
  !cs.isEmpty && cs.length ≤ 63 && cs.all (fun c => isLetter c || c.isDigit || c == '-') &&
    cs.head? != some '-' && cs.getLast? != some '-'

/-- Labels with dots between them, and perhaps a dot at the end. Without that dot the last label
is more than a number. -/
def isDomain (cs : List Char) : Bool :=
  let labels := cs.splitOn '.'
  let last := labels.getLastD []
  cs.length ≤ 253 &&
    if last.isEmpty then labels.length > 1 && labels.dropLast.all isLabel
    else labels.all isLabel && !last.all Char.isDigit

def isByte (cs : List Char) : Bool :=
  cs.length ≤ 3 && (Text.natOfDigits? 256 cs).isSome && (cs.length == 1 || cs.head? != some '0')

def isAddress4 (cs : List Char) : Bool :=
  let parts := cs.splitOn '.'
  parts.length == 4 && parts.all isByte

def isHexDigit (c : Char) : Bool :=
  c.isDigit || ('a' ≤ c && c ≤ 'f') || ('A' ≤ c && c ≤ 'F')

def isGroup (cs : List Char) : Bool := !cs.isEmpty && cs.length ≤ 4 && cs.all isHexDigit

/-- The number of 16-bit groups in a text; an address of four octets counts for two at the end. -/
def groups? (cs : List Char) : Option Nat :=
  if cs.isEmpty then some 0
  else
    let parts := cs.splitOn ':'
    if parts.all isGroup then some parts.length
    else if parts.dropLast.all isGroup && isAddress4 (parts.getLastD []) then
      some (parts.length + 1)
    else none

def splitGap (before : List Char) : List Char → Option (List Char × List Char)
  | ':' :: ':' :: rest => some (before.reverse, rest)
  | c :: rest => splitGap (c :: before) rest
  | [] => none

/-- Eight groups, of which two colons in a row leave out one or more. -/
def isAddress6 (cs : List Char) : Bool :=
  match splitGap [] cs with
  | none => groups? cs == some 8
  | some (head, tail) =>
    match groups? head, groups? tail with
    | some n, some m => n + m < 8 && !head.contains '.'
    | _, _ => false

def isValid (s : String) : Bool :=
  let cs := s.toList
  isDomain cs || isAddress4 cs || isAddress6 cs

end MailClient.Wire.HostName
