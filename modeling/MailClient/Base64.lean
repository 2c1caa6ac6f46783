import MailClient.Text.Blank
import MailClient.Text.Utf8

/-! The standard base64 alphabet of RFC 4648 with required padding. Each octet string has one
encoding, and `decode` says where any other text departs from that form. -/
namespace MailClient.Base64

/-- Why a text is no encoding. Offsets count octets from 0. -/
inductive Problem where
  | symbol (byte : UInt8) (offset : Nat)
  | lastSymbol (byte : UInt8) (offset : Nat)
  | length (count : Nat)
  | padding
  deriving DecidableEq, Repr

def Problem.message : Problem → String
  | .symbol byte offset => s!"Invalid symbol {byte.toNat}, offset {offset}."
  | .lastSymbol byte offset => s!"Invalid last symbol {byte.toNat}, offset {offset}."
  | .length count => s!"Invalid input length: {count}"
  | .padding => "Invalid padding"

def pad : UInt8 := octet '='

def symbol (v : Nat) : UInt8 :=
  if v < 26 then (65 + v).toUInt8
  else if v < 52 then (71 + v).toUInt8
  else if v < 62 then (v - 4).toUInt8
  else if v = 62 then octet '+' else octet '/'

def value? (b : UInt8) : Option Nat :=
  let n := b.toNat
  if 65 ≤ n && n ≤ 90 then some (n - 65)
  else if 97 ≤ n && n ≤ 122 then some (n - 71)
  else if 48 ≤ n && n ≤ 57 then some (n + 4)
  else if n = 43 then some 62
  else if n = 47 then some 63
  else none

def encode : Bytes → Bytes
  | a :: b :: c :: rest =>
    symbol (a.toNat / 4) :: symbol (a.toNat % 4 * 16 + b.toNat / 16) ::
      symbol (b.toNat % 16 * 4 + c.toNat / 64) :: symbol (c.toNat % 64) :: encode rest
  | [a, b] =>
    [symbol (a.toNat / 4), symbol (a.toNat % 4 * 16 + b.toNat / 16), symbol (b.toNat % 16 * 4), pad]
  | [a] => [symbol (a.toNat / 4), symbol (a.toNat % 4 * 16), pad, pad]
  | [] => []

def symbolAt (offset : Nat) (b : UInt8) : Except Problem Nat :=
  match value? b with
  | some v => .ok v
  | none => .error (.symbol b offset)

/-- The values and the number of padding signs in the last four octets or fewer. Padding may
begin at the third octet; `firstPad` is where it began. -/
def lastSymbols (start i : Nat) (firstPad : Option Nat) : Bytes → Except Problem (List Nat × Nat)
  | [] => .ok ([], 0)
  | b :: bs =>
    if b = pad then
      if i < 2 then .error (.symbol pad (start + i))
      else do
        let (values, pads) ←
          lastSymbols start (i + 1) (firstPad.orElse fun _ => some (start + i)) bs
        return (values, pads + 1)
    else match firstPad with
      | some first => .error (.symbol pad first)
      | none => do
        let v ← symbolAt (start + i) b
        let (values, pads) ← lastSymbols start (i + 1) none bs
        return (v :: values, pads)

/-- The octets of the last two to four values; the bits that fill no octet must be zero. -/
def lastOctets (start : Nat) (bs : Bytes) : List Nat → Except Problem Bytes
  | [v, w] =>
    if w % 16 ≠ 0 then .error (.lastSymbol (bs.getD 1 0) (start + 1))
    else .ok [(v * 4 + w / 16).toUInt8]
  | [v, w, x] =>
    if x % 4 ≠ 0 then .error (.lastSymbol (bs.getD 2 0) (start + 2))
    else .ok [(v * 4 + w / 16).toUInt8, (w % 16 * 16 + x / 4).toUInt8]
  | [v, w, x, y] =>
    .ok [(v * 4 + w / 16).toUInt8, (w % 16 * 16 + x / 4).toUInt8, (x % 4 * 64 + y).toUInt8]
  | _ => .error .padding

def decodeLast (start : Nat) (bs : Bytes) : Except Problem Bytes := do
  let (values, pads) ← lastSymbols start 0 none bs
  if values.length < 2 then throw (.length (start + values.length))
  if (values.length + pads) % 4 ≠ 0 then throw .padding
  lastOctets start bs values

def decodeFrom (start : Nat) : Bytes → Except Problem Bytes
  | a :: b :: c :: d :: e :: rest => do
    let v ← symbolAt start a
    let w ← symbolAt (start + 1) b
    let x ← symbolAt (start + 2) c
    let y ← symbolAt (start + 3) d
    let tail ← decodeFrom (start + 4) (e :: rest)
    return (v * 4 + w / 16).toUInt8 :: (w % 16 * 16 + x / 4).toUInt8 ::
      (x % 4 * 64 + y).toUInt8 :: tail
  | bs => decodeLast start bs

/-- A lone last octet that could be no part of an encoding is reported before all else. -/
def decode (bs : Bytes) : Except Problem Bytes :=
  if bs.isEmpty then .ok []
  else
    let last := bs.getLastD 0
    if bs.length % 4 = 1 && last ≠ pad && (value? last).isNone then
      .error (.symbol last (bs.length - 1))
    else decodeFrom 0 bs

def encodeText (bs : Bytes) : String := String.ofList ((encode bs).map latin1)

/-- Decodes a text; blanks around it do not count. -/
def decodeText (s : String) : Except Problem Bytes := decode (Bytes.ofText (Text.trim s))

end MailClient.Base64
