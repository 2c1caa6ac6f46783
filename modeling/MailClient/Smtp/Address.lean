import MailClient.Smtp.Error
import MailClient.Text.Blank

/-! Envelope addresses, which cannot break the command line that they are written into. -/
namespace MailClient.Smtp

namespace Address

def isForbidden (c : Char) : Bool := Text.isControl c || Text.isBlank c || c == '<' || c == '>'

def problem? (s : String) : Option AddressProblem :=
  let cs := s.toList
  if cs.isEmpty then some .empty
  else if cs.any isForbidden then some (.forbidden s)
  else match cs.dropWhile (· != '@') with
    | [] => some .noAt
    | _ :: domain =>
      if (cs.takeWhile (· != '@')).isEmpty || domain.isEmpty then some .emptyPart
      else if domain.contains '@' then some .severalAts
      else none

end Address

structure Address where
  text : String
  valid : Address.problem? text = none
  deriving DecidableEq

def Address.ofText (s : String) : Except Error Address :=
  match h : problem? s with
  | none => .ok ⟨s, h⟩
  | some problem => .error (.address problem)

end MailClient.Smtp
