/-! Numbers in text: decimal digits on the way in, decimal and hexadecimal on the way out. -/
namespace MailClient.Text

/-- The value of decimal digits that follow a part of value `n`. -/
def digitsValue (n : Nat) (cs : List Char) : Nat :=
  cs.foldl (fun n c => n * 10 + (c.toNat - 48)) n

/-- The same value below `bound`. It is given up as soon as it is too large. -/
def digitsBelow? (bound n : Nat) : List Char → Option Nat
  | [] => some n
  | c :: cs =>
    let n := n * 10 + (c.toNat - 48)
    if n < bound then digitsBelow? bound n cs else none

theorem le_digitsValue (n : Nat) (cs : List Char) : n ≤ digitsValue n cs := by
  induction cs generalizing n with
  | nil => exact Nat.le_refl n
  | cons c cs ih => exact Nat.le_trans (by omega) (ih (n * 10 + (c.toNat - 48)))

theorem digitsBelow?_eq {bound n : Nat} (h : n < bound) (cs : List Char) :
    digitsBelow? bound n cs = (some (digitsValue n cs)).filter (· < bound) := by
  induction cs generalizing n with
  | nil => simp [digitsBelow?, digitsValue, Option.filter, h]
  | cons c cs ih =>
    by_cases hc : n * 10 + (c.toNat - 48) < bound
    · simp only [digitsBelow?, if_pos hc]
      exact ih hc
    · have : ¬ digitsValue n (c :: cs) < bound := fun hv =>
        hc (Nat.lt_of_le_of_lt (le_digitsValue _ cs) hv)
      simp [digitsBelow?, Option.filter, hc, this]

def natOfDigits? (bound : Nat) (cs : List Char) : Option Nat :=
  if cs.isEmpty || !cs.all Char.isDigit then none else digitsBelow? bound 0 cs

/-- Reads an unsigned number below `bound`. One leading plus sign is allowed. -/
def unsigned? (bound : Nat) (s : String) : Option Nat :=
  natOfDigits? bound <| match s.toList with
    | '+' :: cs => cs
    | cs => cs

def padded (width n : Nat) : String :=
  let digits := Nat.toDigits 10 n
  String.ofList (List.replicate (width - digits.length) '0' ++ digits)

def hex (width n : Nat) : String :=
  let digits := Nat.toDigits 16 n
  String.ofList (List.replicate (width - digits.length) '0' ++ digits)

end MailClient.Text
