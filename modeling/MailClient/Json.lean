/-! Values of JSON documents, as far as settings and tokens need them. -/
namespace MailClient

/-- A number is kept if it is an integer of 64 bits without sign, fraction and exponent; a text is
kept if its escapes stand for characters. -/
inductive Json where
  | null
  | bool (b : Bool)
  | number (n : Option Nat)
  | text (s : Option String)
  | list (items : List Json)
  | object (members : List (Option String × Json))

namespace Json

def bool? : Json → Option Bool
  | .bool b => some b
  | _ => none

def text? : Json → Option String
  | .text s => s
  | _ => none

def below? (bound : Nat) : Json → Option Nat
  | .number n => n.filter (· < bound)
  | _ => none

def nullable (read : Json → Option α) : Json → Option (Option α)
  | .null => some none
  | v => (read v).map some

end Json
end MailClient
