import MailClient.Imap.Parse

/-! The grammar of responses, with the value of each derivation. It speaks of octets only and knows
nothing of how they are read. Words and free text go as far as they can, and a space that may be
left out is never part of what follows it; so octets have one reading. -/
namespace MailClient.Imap.Grammar

structure Word (kind : UInt8 → Bool) (word after : Bytes) : Prop where
  ne_nil : word ≠ []
  all : ∀ b ∈ word, kind b = true
  stops : ∀ b ∈ after.head?, kind b = false

inductive Gap : Bytes → Bytes → Prop where
  | space (rest : Bytes) : Gap (octet ' ' :: rest) rest
  | none {rest : Bytes} : rest.head? ≠ some (octet ' ') → Gap rest rest

inductive Line : Bytes → String → Prop where
  | mk {body : Bytes} : (∀ b ∈ body, Octet.isText b = true) →
      Line (body ++ Bytes.crlf) (Text.Utf8.text body)

def escaped : Bytes → Bytes
  | [] => []
  | b :: bs =>
    if b = octet '"' || b = octet '\\' then octet '\\' :: b :: escaped bs else b :: escaped bs

theorem escaped_append (bs cs : Bytes) : escaped (bs ++ cs) = escaped bs ++ escaped cs := by
  induction bs with
  | nil => rfl
  | cons b bs ih =>
    rw [List.cons_append, escaped, escaped, ih]
    split <;> rfl

inductive Announced : Bytes → Nat → Prop where
  | mk {digits plus : Bytes} {size : Nat} : digits ≠ [] →
      (∀ b ∈ digits, Octet.isDigit b = true) → (plus = [] ∨ plus = [octet '+']) →
      Text.digitsValue 0 (digits.map latin1) = size → size < Nat.pow 2 64 →
      Announced (octet '\x7b' :: digits ++ plus ++ octet '\x7d' :: Bytes.crlf) size

/-- Tokens, with any number of spaces around them. Literals above `spill` octets are spilled. -/
inductive Tokens (spill : Nat) : Bytes → List Token → Prop where
  | nil : Tokens spill [] []
  | space {bs ts} : Tokens spill bs ts → Tokens spill (octet ' ' :: bs) ts
  | atom {word bs ts} : Word Octet.isAtom word bs → Tokens spill bs ts →
      Tokens spill (word ++ bs) (.atom (Text.Utf8.text word) :: ts)
  | quoted {value text bs ts} : (∀ b ∈ value, Octet.isText b = true) →
      Text.Utf8.text? value = some text → Tokens spill bs ts →
      Tokens spill (octet '"' :: escaped value ++ octet '"' :: bs) (.quoted text :: ts)
  | literal {header payload bs ts} : Announced header payload.length → Tokens spill bs ts →
      Tokens spill (header ++ payload ++ bs) (.literal (.store spill payload) :: ts)
  | parentheses {inner items bs ts} : Tokens spill inner items → Tokens spill bs ts →
      Tokens spill (octet '(' :: inner ++ octet ')' :: bs) (.list items :: ts)
  | brackets {inner items bs ts} : Tokens spill inner items → Tokens spill bs ts →
      Tokens spill (octet '[' :: inner ++ octet ']' :: bs) (.list items :: ts)

inductive Tail (spill : Nat) : Bytes → Option (List Token) → String → Prop where
  | plain {bs rest text} : Gap bs rest → rest.head? ≠ some (octet '[') → Line rest text →
      Tail spill bs none text
  | code {bs inner items after rest text} : Gap bs (octet '[' :: inner ++ octet ']' :: after) →
      Tokens spill inner items → Gap after rest → Line rest text →
      Tail spill bs (some items) text

inductive Written (spill : Nat) : Bytes → Response → Prop where
  | continuation {bs rest text} : Gap bs rest → Line rest text →
      Written spill (octet '+' :: bs) (.continuation text)
  | data {bs ts} : Tokens spill bs ts →
      Status.ofKeyword? (Text.Utf8.text (bs.takeWhile Octet.isAtom)) = none →
      Written spill (octet '*' :: octet ' ' :: bs ++ Bytes.crlf) (.untagged ⟨ts, none, none⟩)
  | notice {word bs code text} : Word Octet.isAtom word bs →
      (Status.ofKeyword? (Text.Utf8.text word)).isSome → Tail spill bs code text →
      Written spill (octet '*' :: octet ' ' :: word ++ bs)
        (.untagged ⟨[.atom (Text.Utf8.text word)], code, some text⟩)
  | completion {tag word bs status code text} : Word Octet.isTag tag [octet ' '] →
      tag.head? ≠ some (octet '*') → Word Octet.isAtom word bs →
      Status.ofKeyword? (Text.Utf8.text word) = some status → Tail spill bs code text →
      Written spill (tag ++ octet ' ' :: word ++ bs)
        (.tagged ⟨Text.Utf8.text tag⟩ status code text)

end MailClient.Imap.Grammar
