/-! Keywords are compared without regard to the case of ASCII letters. -/
namespace MailClient.Text

/-- ASCII letters in upper case; every other character stands. -/
def upper (s : String) : String := String.ofList (s.toList.map Char.toUpper)

def sameWord (a b : String) : Bool := upper a == upper b

def afterWord? (word s : String) : Option String :=
  let n := word.length
  if sameWord word (String.ofList (s.toList.take n)) then some (String.ofList (s.toList.drop n))
  else none

end MailClient.Text
