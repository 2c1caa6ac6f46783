import MailClient.Bytes

/-! The content of a message on the wire. Every line ends with CRLF, a dot at the front of a line
is doubled, and a line with a single dot ends the message. -/
namespace MailClient.Smtp.Message

def dot : UInt8 := octet '.'

def dropFinal (b : UInt8) (bs : Bytes) : Bytes := if bs.getLast? = some b then bs.dropLast else bs

/-- The lines of a message, which end with a line feed or with CRLF. -/
def lines (message : Bytes) : List Bytes :=
  let body := dropFinal Bytes.lf message
  if body.isEmpty then [] else (body.splitOn Bytes.lf).map (dropFinal Bytes.cr)

def encodeLine (line : Bytes) : Bytes :=
  (if line.head? = some dot then dot :: line else line) ++ Bytes.crlf

def encode (message : Bytes) : Bytes :=
  (lines message).flatMap encodeLine ++ dot :: Bytes.crlf

end MailClient.Smtp.Message
