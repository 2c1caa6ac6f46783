import MailClient.Bytes
import MailClient.Smtp.Error
import MailClient.Text.Decimal

/-! Replies of one or more lines. Every line begins with the code; a hyphen after the code means
that more lines follow. -/
namespace MailClient.Smtp

structure Reply where
  code : Nat
  /-- The texts after the code and the separator, one for each line. -/
  lines : List String
  deriving DecidableEq, Repr

namespace Reply

def isSuccess (r : Reply) : Bool := ReplyClass.ofCode r.code == .completed

def text (r : Reply) : String := String.intercalate "\n" r.lines

def firstLine (r : Reply) : String := r.lines.headD ""

def refusal (r : Reply) : Error := .refused r.code r.text

/-- The error that a reply other than 2xx amounts to. -/
def error? (r : Reply) : Option Error := if r.isSuccess then none else some r.refusal

def isLastLine (line : String) : Bool := (Bytes.ofText line)[3]? != some (octet '-')

def splitCode (line : String) : Except Violation (Nat × List Char) :=
  match line.toList with
  | a :: b :: c :: rest =>
    match Text.natOfDigits? 1000 [a, b, c] with
    | some code => .ok (code, rest)
    | none => .error (.replyCode line)
  | _ => .error (.replyCode line)

def textOfLine (code : Nat) (line : String) : Except Violation String :=
  match splitCode line with
  | .error v => .error v
  | .ok (found, rest) =>
    if found ≠ code then .error (.codeChanged line)
    else match rest with
      | [] => .ok ""
      | c :: text =>
        if c = ' ' || c = '-' then .ok (String.ofList text) else .error (.separator line)

def ofLines (lines : List String) : Except Violation Reply :=
  match lines with
  | [] => .error .emptyReply
  | first :: _ =>
    match splitCode first with
    | .error v => .error v
    | .ok (code, _) => (lines.mapM (textOfLine code)).map fun texts => ⟨code, texts⟩

end Reply
end MailClient.Smtp
