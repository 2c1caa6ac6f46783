import MailClient.Smtp.Reply
import MailClient.Text.Blank
import MailClient.Text.Utf8
import MailClient.Wire.Inbox

/-! Replies read one octet at a time. Lines end with a line feed, carriage returns before it do
not count, and blank lines are skipped. A reply that does not come to its end within the bounds on
lines is given up. -/
namespace MailClient.Smtp

structure Reading where
  /-- The lines so far, the last one first. -/
  before : List String
  /-- Octets of the unfinished line, the last one first. -/
  line : Bytes
  room : Nat
  deriving DecidableEq, Repr

namespace Reading

/-- The longest line with its line end. -/
def lineLimit : Nat := 4096

def lineCountLimit : Nat := 256

def atLine (before : List String) : Reading := ⟨before, [], lineLimit⟩

def initial : Reading := atLine []

def withoutEnd (line : String) : String :=
  String.ofList (Text.dropEndWhile (fun c => c = '\r' || c = '\n') line.toList)

inductive Move where
  | more (r : Reading)
  | done (reply : Reply)
  | broken (e : Error)

def addLine (before : List String) (line : String) : Move :=
  let lines := line :: before
  if line.isEmpty then .more (atLine before)
  else if Reply.isLastLine line then
    match Reply.ofLines lines.reverse with
    | .ok reply => .done reply
    | .error v => .broken (.violation v)
  else if lineCountLimit ≤ lines.length then .broken (.violation .tooManyLines)
  else .more (atLine lines)

def step (r : Reading) (b : UInt8) : Move :=
  let line := b :: r.line
  if b ≠ Bytes.lf && r.room > 1 then .more ⟨r.before, line, r.room - 1⟩
  else match Text.Utf8.decode line.reverse with
    | .error flaw => .broken (.io (.notText flaw))
    | .ok text =>
      if b = Bytes.lf then addLine r.before (withoutEnd text)
      else .broken (.violation .lineTooLong)

def consume (r : Reading) : Bytes → Wire.Progress Reading Error Reply
  | [] => .more r
  | b :: bs =>
    match r.step b with
    | .more r => r.consume bs
    | .done reply => .done reply bs
    | .broken e => .broken e bs

/-- The end of the stream; the octets of the unfinished line are looked at first. -/
def ended (r : Reading) : Error :=
  match Text.Utf8.decode r.line.reverse with
  | .error flaw => .io (.notText flaw)
  | .ok _ => .io .closed

theorem length_lt_of_consume {r : Reading} {bs rest : Bytes} {reply : Reply}
    (h : r.consume bs = .done reply rest) : rest.length < bs.length := by
  fun_induction consume r bs <;> simp_all
  omega

def framing : Wire.Framing Reading Error Reply := ⟨initial, consume, ended, length_lt_of_consume⟩

end Reading
end MailClient.Smtp
