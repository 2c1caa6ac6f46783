/-! Octet strings as they travel on the wire. -/
namespace MailClient

abbrev Bytes := List UInt8

def octet (c : Char) : UInt8 := c.toNat.toUInt8

namespace Bytes

def cr : UInt8 := 13
def lf : UInt8 := 10
def crlf : Bytes := [cr, lf]

/-- The UTF-8 form of a text. -/
def ofText (s : String) : Bytes := s.toList.flatMap String.utf8EncodeChar

def line (s : String) : Bytes := ofText s ++ crlf

end Bytes

/-- Reads one octet per character, U+0000 to U+00FF. -/
def latin1 (b : UInt8) : Char := Char.ofNat b.toNat

end MailClient
