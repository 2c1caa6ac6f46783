import MailClient.Json
import MailClient.Text.Decimal

/-! The strict JSON grammar: no comments, no trailing commas, nothing after the value. -/
namespace MailClient.Json

def skipSpace : List Char → List Char :=
  List.dropWhile fun c => c == ' ' || c == '\n' || c == '\t' || c == '\r'

def hexDigit? (c : Char) : Option Nat :=
  if '0' ≤ c && c ≤ '9' then some (c.toNat - 48)
  else if 'a' ≤ c && c ≤ 'f' then some (c.toNat - 87)
  else if 'A' ≤ c && c ≤ 'F' then some (c.toNat - 55)
  else none

def unit? (a b c d : Char) : Option Nat := do
  return ((← hexDigit? a) * 16 + (← hexDigit? b)) * 256 + (← hexDigit? c) * 16 + (← hexDigit? d)

def simpleEscape? (c : Char) : Option Char :=
  match c with
  | '"' => some '"'
  | '\\' => some '\\'
  | '/' => some '/'
  | 'b' => some '\x08'
  | 'f' => some '\x0c'
  | 'n' => some '\n'
  | 'r' => some '\r'
  | 't' => some '\t'
  | _ => none

/-- A part of a text: a character, or a 16-bit unit written as an escape. -/
inductive Part where
  | char (c : Char)
  | unit (n : Nat)

def parts? : List Char → Option (List Part × List Char)
  | [] => none
  | '"' :: rest => some ([], rest)
  | '\\' :: 'u' :: a :: b :: c :: d :: rest => do
    let n ← unit? a b c d
    let (ps, left) ← parts? rest
    return (.unit n :: ps, left)
  | '\\' :: e :: rest => do
    let c ← simpleEscape? e
    let (ps, left) ← parts? rest
    return (.char c :: ps, left)
  | c :: rest =>
    if c = '\\' || c.toNat < 0x20 then none
    else do
      let (ps, left) ← parts? rest
      return (.char c :: ps, left)

/-- Joins surrogate pairs; a surrogate that stands alone is no character. -/
def characters? : List Part → Option (List Char)
  | [] => some []
  | .char c :: ps => (characters? ps).map (c :: ·)
  | .unit n :: .unit m :: ps =>
    if 0xD800 ≤ n && n < 0xDC00 then
      if 0xDC00 ≤ m && m < 0xE000 then
        (characters? ps).map (Char.ofNat (0x10000 + (n - 0xD800) * 0x400 + (m - 0xDC00)) :: ·)
      else none
    else if 0xDC00 ≤ n && n < 0xE000 then none
    else (characters? (.unit m :: ps)).map (Char.ofNat n :: ·)
  | .unit n :: ps =>
    if 0xD800 ≤ n && n < 0xE000 then none else (characters? ps).map (Char.ofNat n :: ·)

def textAfterQuote? (cs : List Char) : Option (Option String × List Char) := do
  let (ps, rest) ← parts? cs
  return ((characters? ps).map String.ofList, rest)

def digits? (cs : List Char) : Option (List Char × List Char) :=
  match cs.span Char.isDigit with
  | ([], _) => none
  | (ds, rest) => some (ds, rest)

/-- An integer part: zero alone, or digits that begin with another. -/
def integer? (cs : List Char) : Option (List Char × List Char) := do
  let (ds, rest) ← digits? cs
  if ds.length > 1 && ds.head? == some '0' then none else some (ds, rest)

/-- An optional fraction; the flag tells whether there was one. -/
def fraction? : List Char → Option (Bool × List Char)
  | '.' :: cs => do
    let (_, rest) ← digits? cs
    return (true, rest)
  | cs => some (false, cs)

def exponent? (cs : List Char) : Option (Bool × List Char) :=
  match cs with
  | c :: rest =>
    if c = 'e' || c = 'E' then do
      let rest' := match rest with
        | '+' :: r => r
        | '-' :: r => r
        | r => r
      let (_, left) ← digits? rest'
      return (true, left)
    else some (false, cs)
  | [] => some (false, [])

def number? (cs : List Char) : Option (Json × List Char) := do
  let (negative, cs) := match cs with
    | '-' :: r => (true, r)
    | r => (false, r)
  let (ds, rest) ← integer? cs
  let (hasFraction, rest) ← fraction? rest
  let (hasExponent, rest) ← exponent? rest
  let plain := !negative && !hasFraction && !hasExponent
  return (.number (if plain then Text.natOfDigits? (Nat.pow 2 64) ds else none), rest)

def after? (word : List Char) (cs : List Char) : Option (List Char) :=
  if cs.take word.length = word then some (cs.drop word.length) else none

mutual

/-- One value; `fuel` bounds the nesting and the number of items. -/
def value? (fuel : Nat) (cs : List Char) : Option (Json × List Char) :=
  match fuel with
  | 0 => none
  | fuel + 1 =>
    match skipSpace cs with
    | '"' :: rest => (textAfterQuote? rest).map fun (s, left) => (.text s, left)
    | '[' :: rest =>
      match skipSpace rest with
      | ']' :: left => some (.list [], left)
      | _ => (items? fuel rest).map fun (vs, left) => (.list vs, left)
    | '\x7b' :: rest =>
      match skipSpace rest with
      | '\x7d' :: left => some (.object [], left)
      | _ => (members? fuel rest).map fun (ms, left) => (.object ms, left)
    | 't' :: rest => (after? ['r', 'u', 'e'] rest).map fun left => (.bool true, left)
    | 'f' :: rest => (after? ['a', 'l', 's', 'e'] rest).map fun left => (.bool false, left)
    | 'n' :: rest => (after? ['u', 'l', 'l'] rest).map fun left => (.null, left)
    | rest => number? rest

def items? (fuel : Nat) (cs : List Char) : Option (List Json × List Char) :=
  match fuel with
  | 0 => none
  | fuel + 1 => do
    let (v, rest) ← value? fuel cs
    match skipSpace rest with
    | ',' :: rest' =>
      let (vs, left) ← items? fuel rest'
      return (v :: vs, left)
    | ']' :: left => return ([v], left)
    | _ => none

def members? (fuel : Nat) (cs : List Char) : Option (List (Option String × Json) × List Char) :=
  match fuel with
  | 0 => none
  | fuel + 1 =>
    match skipSpace cs with
    | '"' :: rest => do
      let (name, rest) ← textAfterQuote? rest
      match skipSpace rest with
      | ':' :: rest =>
        let (v, rest) ← value? fuel rest
        match skipSpace rest with
        | ',' :: rest' =>
          let (ms, left) ← members? fuel rest'
          return ((name, v) :: ms, left)
        | '\x7d' :: left => return ([(name, v)], left)
        | _ => none
      | _ => none
    | _ => none

end

/-- The value of a whole document. Each step into the grammar uses up a character, so the number
of characters is fuel enough. -/
def parse? (s : String) : Option Json := do
  let cs := s.toList
  let (v, rest) ← value? (cs.length + 1) cs
  if (skipSpace rest).isEmpty then some v else none

end MailClient.Json
