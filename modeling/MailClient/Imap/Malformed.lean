import MailClient.Bytes
import MailClient.Text.Quoted

/-! How octets can fail to form a response. -/
namespace MailClient.Imap

inductive Malformed where
  | missingTag
  | unknownStatus (word : String)
  | endInLine
  | endInResponse
  | endInLiteral (size : Nat)
  | lineTooLong (limit : Nat)
  | openGroup
  | openCode
  | wrongCloser
  | looseCloser
  | unexpectedByte (byte : UInt8)
  | literalSize
  | escape (byte : UInt8)
  | lineBreakInQuoted
  | quotedNotText
  | expectedAtom
  | bareLf
  | bareCr
  | expectedLineEnd
  | expected (wanted found : UInt8)
  deriving DecidableEq, Repr

def Malformed.message : Malformed → String
  | .missingTag => "missing tag"
  | .unknownStatus word => "unknown status " ++ Text.quoted word ++ " in tagged response"
  | .endInLine => "stream ended before end of line"
  | .endInResponse => "stream ended inside response"
  | .endInLiteral size => s!"stream ended inside {size}-byte literal"
  | .lineTooLong limit => s!"line exceeds {limit} bytes"
  | .openGroup => "unbalanced parenthesis at end of line"
  | .openCode => "unterminated response code"
  | .wrongCloser => "mismatched closing bracket"
  | .looseCloser => "unbalanced parenthesis"
  | .unexpectedByte byte => "unexpected byte 0x" ++ Text.hex 2 byte.toNat
  | .literalSize => "invalid literal length"
  | .escape byte => "invalid escape \\" ++ String.singleton (latin1 byte) ++ " in quoted string"
  | .lineBreakInQuoted => "line break in quoted string"
  | .quotedNotText => "invalid UTF-8 in quoted string"
  | .expectedAtom => "expected atom"
  | .bareLf => "bare LF"
  | .bareCr => "bare CR"
  | .expectedLineEnd => "expected CRLF"
  | .expected wanted found =>
    "expected " ++ Text.quotedChar (latin1 wanted) ++ ", found " ++ Text.quotedChar (latin1 found)

end MailClient.Imap
