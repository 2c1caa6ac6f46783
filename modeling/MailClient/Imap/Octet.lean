import MailClient.Bytes

/-! Which octets make up the words of a response. -/
namespace MailClient.Imap.Octet

def special : List Char := ['(', ')', '\x7b', '"', '[', ']']

/-- Visible ASCII and all 8-bit octets, except those that begin or end another kind of token. -/
def isAtom (b : UInt8) : Bool :=
  ((0x21 ≤ b && b ≤ 0x7E) || 0x80 ≤ b) && !special.any fun c => octet c == b

def isTag (b : UInt8) : Bool := isAtom b && b != octet '+'

def isDigit (b : UInt8) : Bool := octet '0' ≤ b && b ≤ octet '9'

def isText (b : UInt8) : Bool := b != Bytes.cr && b != Bytes.lf

end MailClient.Imap.Octet
