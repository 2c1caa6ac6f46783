import MailClient.Bytes

/-! UTF-8 decoding. `decode` accepts well-formed input only, and otherwise tells what is wrong
and where; `text` puts one U+FFFD in place of each maximal prefix that begins no character. -/
namespace MailClient.Text.Utf8

/-- What stands at the front of some octets: a character, octets that form none, or the
beginning of a character, cut off by the end. -/
inductive Front where
  | char (c : Char) (rest : Bytes)
  | invalid (rest : Bytes)
  | incomplete

def Front.rest : Front → Bytes
  | .char _ rest => rest
  | .invalid rest => rest
  | .incomplete => []

def continues (low high b : UInt8) : Bool := low ≤ b && b ≤ high

def payload (b : UInt8) : Nat := b.toNat % 64

/-- The last octet of a character whose value so far is `value`. -/
def last (value : Nat) : Bytes → Front
  | b :: rest =>
    if continues 0x80 0xBF b then .char (Char.ofNat (value * 64 + payload b)) rest
    else .invalid (b :: rest)
  | [] => .incomplete

def third (value : Nat) : Bytes → Front
  | b :: rest =>
    if continues 0x80 0xBF b then last (value * 64 + payload b) rest else .invalid (b :: rest)
  | [] => .incomplete

def second (low high : UInt8) (value : Nat) (more : Nat → Bytes → Front) : Bytes → Front
  | b :: rest =>
    if continues low high b then more (value * 64 + payload b) rest else .invalid (b :: rest)
  | [] => .incomplete

def front (b : UInt8) (rest : Bytes) : Front :=
  let n := b.toNat
  if n < 0x80 then .char (Char.ofNat n) rest
  else if n < 0xC2 then .invalid rest
  else if n < 0xE0 then last (n - 0xC0) rest
  else if n = 0xE0 then second 0xA0 0xBF 0 last rest
  else if n = 0xED then second 0x80 0x9F 13 last rest
  else if n < 0xF0 then second 0x80 0xBF (n - 0xE0) last rest
  else if n = 0xF0 then second 0x90 0xBF 0 third rest
  else if n < 0xF4 then second 0x80 0xBF (n - 0xF0) third rest
  else if n = 0xF4 then second 0x80 0x8F 4 third rest
  else .invalid rest

theorem last_rest_length_le (value : Nat) (bs : Bytes) :
    (last value bs).rest.length ≤ bs.length := by
  unfold last
  split
  · split <;> simp [Front.rest]
  · simp [Front.rest]

theorem third_rest_length_le (value : Nat) (bs : Bytes) :
    (third value bs).rest.length ≤ bs.length := by
  unfold third
  split
  · split
    · exact Nat.le_succ_of_le (last_rest_length_le _ _)
    · simp [Front.rest]
  · simp [Front.rest]

theorem second_rest_length_le {more : Nat → Bytes → Front}
    (h : ∀ value bs, (more value bs).rest.length ≤ bs.length) (low high : UInt8) (value : Nat)
    (bs : Bytes) : (second low high value more bs).rest.length ≤ bs.length := by
  unfold second
  split
  · split
    · exact Nat.le_succ_of_le (h _ _)
    · simp [Front.rest]
  · simp [Front.rest]

theorem front_rest_length_le (b : UInt8) (bs : Bytes) :
    (front b bs).rest.length ≤ bs.length := by
  have two := last_rest_length_le
  have three := fun low high value => second_rest_length_le last_rest_length_le low high value bs
  have four := fun low high value => second_rest_length_le third_rest_length_le low high value bs
  unfold front
  dsimp only
  repeat' split
  all_goals first
    | exact Nat.le_refl _
    | exact two _ _
    | exact three _ _ _
    | exact four _ _ _

theorem rest_length_lt {b : UInt8} {bs : Bytes} {f : Front} (h : front b bs = f) :
    f.rest.length < bs.length + 1 := by
  rw [← h]
  exact Nat.lt_succ_of_le (front_rest_length_le b bs)

/-- Why octets are no text. Indices count octets from the first one. -/
inductive Flaw where
  | invalid (size index : Nat)
  | incomplete (index : Nat)
  deriving DecidableEq, Repr

def Flaw.message : Flaw → String
  | .invalid size index => s!"invalid utf-8 sequence of {size} bytes from index {index}"
  | .incomplete index => s!"incomplete utf-8 byte sequence from index {index}"

/-- The characters of well-formed octets, after those of `before`, which are in reverse and take
up `index` octets. -/
def decodeFrom (index : Nat) (before : List Char) : Bytes → Except Flaw (List Char)
  | [] => .ok before.reverse
  | b :: rest =>
    match h : front b rest with
    | .char c rest' =>
      have : rest'.length < rest.length + 1 := rest_length_lt h
      decodeFrom (index + c.utf8Size) (c :: before) rest'
    | .invalid rest' => .error (.invalid (rest.length + 1 - rest'.length) index)
    | .incomplete => .error (.incomplete index)
termination_by bs => bs.length

def replaceFrom (before : List Char) : Bytes → List Char
  | [] => before.reverse
  | b :: rest =>
    match h : front b rest with
    | .char c rest' =>
      have : rest'.length < rest.length + 1 := rest_length_lt h
      replaceFrom (c :: before) rest'
    | .invalid rest' =>
      have : rest'.length < rest.length + 1 := rest_length_lt h
      replaceFrom ('\uFFFD' :: before) rest'
    | .incomplete => ('\uFFFD' :: before).reverse
termination_by bs => bs.length

def decode (bs : Bytes) : Except Flaw String := (decodeFrom 0 [] bs).map String.ofList

def text? (bs : Bytes) : Option String := (decode bs).toOption

def text (bs : Bytes) : String := String.ofList (replaceFrom [] bs)

end MailClient.Text.Utf8
