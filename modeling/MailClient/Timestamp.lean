import MailClient.Text.Blank
import MailClient.Text.Decimal

/-! Points in time of the Gregorian calendar in UTC. `parse?` reads the date-time form of
RFC 3339, with blanks allowed between the parts, and `text` writes it. -/
namespace MailClient

/-- Seconds since the start of 1970, and nanoseconds after that second. In a leap second the
nanoseconds go on past a whole second. -/
structure Timestamp where
  second : Int
  nano : Nat
  deriving DecidableEq, Repr

namespace Timestamp

def before (s t : Timestamp) : Bool :=
  s.second < t.second || (s.second == t.second && s.nano < t.nano)

theorem before_iff (s t : Timestamp) :
    s.before t = true ↔ s.second < t.second ∨ s.second = t.second ∧ s.nano < t.nano := by
  simp [before]

def addSeconds (t : Timestamp) (n : Nat) : Timestamp := { t with second := t.second + n }

/-! ### The calendar -/

def isLeap (year : Int) : Bool := (year % 4 == 0 && year % 100 != 0) || year % 400 == 0

def daysIn (year : Int) (month : Nat) : Nat :=
  if month = 2 then (if isLeap year then 29 else 28)
  else if month = 4 || month = 6 || month = 9 || month = 11 then 30 else 31

/-- Days from the start of 1970. Years are counted from March, so that a leap day ends one. -/
def dayNumber (year : Int) (month day : Nat) : Int :=
  let y : Int := if month ≤ 2 then year - 1 else year
  let fromMarch := (month + 9) % 12
  let dayOfYear : Int := ((153 * fromMarch + 2) / 5 : Nat) + (day : Int) - 1
  365 * y + y.fdiv 4 - y.fdiv 100 + y.fdiv 400 + dayOfYear - 719468

def civil (dayNumber : Int) : Int × Nat × Nat :=
  let z := dayNumber + 719468
  let era := z.fdiv 146097
  let day := (z - era * 146097).toNat
  let yearOfEra := (day - day / 1460 + day / 36524 - day / 146096) / 365
  let dayOfYear := day - (365 * yearOfEra + yearOfEra / 4 - yearOfEra / 100)
  let fromMarch := (5 * dayOfYear + 2) / 153
  let month := if fromMarch < 10 then fromMarch + 3 else fromMarch - 9
  let year := era * 400 + yearOfEra
  (if month ≤ 2 then year + 1 else year, month, dayOfYear - (153 * fromMarch + 2) / 5 + 1)

def hasDates (year : Int) : Bool := -262143 ≤ year && year ≤ 262142

/-! ### Reading -/

def skipBlanks : List Char → List Char := List.dropWhile Text.isBlank

/-- One to `width` digits, after blanks. No value is above 63 bits. -/
def number? (width : Nat) (cs : List Char) : Option (Nat × List Char) :=
  let cs := skipBlanks cs
  let ds := (cs.take width).takeWhile Char.isDigit
  (Text.natOfDigits? (Nat.pow 2 63) ds).map fun n => (n, cs.drop ds.length)

def within? (low high : Nat) (r : Nat × List Char) : Option (Nat × List Char) :=
  if low ≤ r.1 && r.1 ≤ high then some r else none

/-- Four digits at most, or any number of them after a sign. -/
def year? (cs : List Char) : Option (Int × List Char) :=
  match skipBlanks cs with
  | '-' :: c :: rest =>
    if c.isDigit then (number? rest.length.succ (c :: rest)).map fun (n, r) => (-n, r) else none
  | '+' :: c :: rest =>
    if c.isDigit then (number? rest.length.succ (c :: rest)).map fun (n, r) => (n, r) else none
  | cs => (number? 4 cs).map fun (n, r) => (n, r)

def char? (c : Char) (cs : List Char) : Option (List Char) :=
  match cs with
  | d :: rest => if d = c then some rest else none
  | [] => none

/-- A decimal fraction of a second. Digits past the ninth do not count. -/
def fraction? : List Char → Option (Nat × List Char)
  | '.' :: cs =>
    let ds := cs.takeWhile Char.isDigit
    let kept := ds.take 9
    if ds.isEmpty then none
    else some (Text.digitsValue 0 kept * Nat.pow 10 (9 - kept.length), cs.drop ds.length)
  | cs => some (0, cs)

def twoDigits? : List Char → Option (Nat × List Char)
  | a :: b :: rest =>
    if a.isDigit && b.isDigit then some (Text.digitsValue 0 [a, b], rest) else none
  | _ => none

def offset? (cs : List Char) : Option (Int × List Char) :=
  if (cs.take 3).map Char.toUpper == ['U', 'T', 'C'] then
    some (0, cs.drop 3)
  else match cs with
    | 'Z' :: rest => some (0, rest)
    | 'z' :: rest => some (0, rest)
    | sign :: rest =>
      if sign = '+' || sign = '-' || sign = '\u2212' then do
        let (hours, rest) ← twoDigits? rest
        let (minutes, rest) ← twoDigits? (rest.dropWhile fun c => c == ':' || Text.isBlank c)
        if minutes > 59 || hours > 23 then none
        else
          let span : Int := hours * 3600 + minutes * 60
          some (if sign = '+' then span else -span, rest)
      else none
    | [] => none

def parse? (s : String) : Option Timestamp := do
  let (year, cs) ← year? s.toList
  let cs ← char? '-' (skipBlanks cs)
  let (month, cs) ← number? 2 cs >>= within? 1 12
  let cs ← char? '-' (skipBlanks cs)
  let (day, cs) ← number? 2 cs >>= within? 1 31
  let cs ← match cs with
    | c :: rest => if c = 't' || c = 'T' || c = ' ' then some rest else none
    | [] => none
  let (hour, cs) ← number? 2 cs >>= within? 0 23
  let cs ← char? ':' (skipBlanks cs)
  let (minute, cs) ← number? 2 cs >>= within? 0 59
  let cs ← char? ':' (skipBlanks cs)
  let (second, cs) ← number? 2 cs >>= within? 0 60
  let (nano, cs) ← fraction? cs
  let (offset, cs) ← offset? (skipBlanks cs)
  if !(skipBlanks cs).isEmpty || !hasDates year || day > daysIn year month then none
  else
    let clock : Int := hour * 3600 + minute * 60 + (min second 59 : Nat)
    let utc := dayNumber year month day * 86400 + clock - offset
    if !hasDates (civil (utc.fdiv 86400)).1 then none
    else some ⟨utc, if second = 60 then nano + 1000000000 else nano⟩

/-! ### Writing -/

def yearText (year : Int) : String :=
  if 0 ≤ year && year ≤ 9999 then Text.padded 4 year.toNat
  else if year < 0 then "-" ++ Text.padded 4 year.natAbs
  else "+" ++ Text.padded 4 year.natAbs

/-- The fraction in thousandths, millionths or billionths, whichever is exact first. -/
def fractionText (nano : Nat) : String :=
  if nano = 0 then ""
  else if nano % 1000000 = 0 then "." ++ Text.padded 3 (nano / 1000000)
  else if nano % 1000 = 0 then "." ++ Text.padded 6 (nano / 1000)
  else "." ++ Text.padded 9 nano

def text (t : Timestamp) : String :=
  let (year, month, day) := civil (t.second.fdiv 86400)
  let clock := (t.second.fmod 86400).toNat
  let second := clock % 60 + t.nano / 1000000000
  yearText year ++ "-" ++ Text.padded 2 month ++ "-" ++ Text.padded 2 day ++ "T" ++
    Text.padded 2 (clock / 3600) ++ ":" ++ Text.padded 2 (clock / 60 % 60) ++ ":" ++
    Text.padded 2 second ++ fractionText (t.nano % 1000000000) ++ "Z"

end Timestamp
end MailClient
