import MailClient.Text.Decimal

/-! Spans of time, and instants as spans since the start, in nanoseconds. -/
namespace MailClient

abbrev Duration := Nat

namespace Duration

def millis (n : Nat) : Duration := n * 1000000

def seconds (n : Nat) : Duration := n * 1000000000

/-- A quotient by `unit`, which has `places` zeros, without needless zeros at the end. -/
def inUnit (d unit places : Nat) (name : String) : String :=
  let whole := toString (d / unit)
  let fraction := (Text.padded places (d % unit)).toList.reverse.dropWhile (· == '0')
  if d % unit = 0 then whole ++ name
  else whole ++ "." ++ String.ofList fraction.reverse ++ name

/-- Written in the largest unit of which the span holds at least one. -/
def text (d : Duration) : String :=
  if seconds 1 ≤ d then inUnit d (seconds 1) 9 "s"
  else if millis 1 ≤ d then inUnit d (millis 1) 6 "ms"
  else if 1000 ≤ d then inUnit d 1000 3 "µs"
  else toString d ++ "ns"

end Duration
end MailClient
