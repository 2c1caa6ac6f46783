import MailClient.Imap.Parse
import MailClient.Proofs.Imap.Grammar
import MailClient.Proofs.Text.Decimal

/-! How a response is written down, and which responses can be. A rendering is a list of fragments,
which keeps the octets of literals apart from the lines around them. -/
namespace MailClient.Imap

inductive Fragment where
  | text (bs : Bytes)
  | payload (bs : Bytes)

namespace Fragment

def octets : Fragment → Bytes
  | .text bs => bs
  | .payload bs => bs

/-- The lines between payloads. Each ends with a line end, where it is not the last. -/
def segmentsAfter (line : Bytes) : List Fragment → List Bytes
  | [] => [line]
  | .text bs :: fs => segmentsAfter (line ++ bs) fs
  | .payload _ :: fs => line :: segmentsAfter [] fs

end Fragment

def octetsOf (fs : List Fragment) : Bytes := fs.flatMap Fragment.octets

/-! ### Tokens -/

namespace Octet

theorem isDigit_latin1 (b : UInt8) : (latin1 b).isDigit = isDigit b := by
  obtain ⟨⟨i⟩⟩ := b
  revert i
  decide +kernel

theorem isDigit_of_mem_ofText {b : UInt8} {size : Nat} (h : b ∈ Bytes.ofText (toString size)) :
    isDigit b = true := by
  have hc : latin1 b ∈ Nat.toDigits 10 size := by
    rw [← Text.map_latin1_toString]
    exact List.mem_map_of_mem h
  rw [← isDigit_latin1]
  exact Nat.isDigit_of_mem_toDigits (by decide) (by decide) hc

end Octet

namespace Token

def header (size : Nat) : Bytes :=
  octet '\x7b' :: Bytes.ofText (toString size) ++ octet '\x7d' :: Bytes.crlf

mutual
def fragments : Token → List Fragment
  | .atom s => [.text (Bytes.ofText s)]
  | .quoted s => [.text (octet '"' :: Grammar.escaped (Bytes.ofText s) ++ [octet '"'])]
  | .literal body => [.text (header body.bytes.length), .payload body.bytes]
  | .list items => .text [octet '('] :: spaced items ++ [.text [octet ')']]

def spaced : List Token → List Fragment
  | [] => []
  | t :: ts => t.fragments ++ following ts

def following : List Token → List Fragment
  | [] => []
  | t :: ts => .text [octet ' '] :: t.fragments ++ following ts
end

inductive Writable : Token → Prop where
  | atom {s} : s ≠ "" → (∀ b ∈ Bytes.ofText s, Octet.isAtom b = true) → Writable (.atom s)
  | quoted {s} : (∀ b ∈ Bytes.ofText s, Octet.isText b = true) → Writable (.quoted s)
  | literal {body : Literal} : body.bytes.length < Nat.pow 2 64 → Writable (.literal body)
  | list {items} : (∀ t ∈ items, Writable t) → Writable (.list items)

mutual
def storedAt (spill : Nat) : Token → Token
  | .literal body => .literal (.store spill body.bytes)
  | .list items => .list (allStoredAt spill items)
  | .atom s => .atom s
  | .quoted s => .quoted s

def allStoredAt (spill : Nat) : List Token → List Token
  | [] => []
  | t :: ts => t.storedAt spill :: allStoredAt spill ts
end

end Token

/-! ### Responses -/

namespace Response

def tailFragments : Option (List Token) → String → List Fragment
  | none, text => [.text (octet ' ' :: Bytes.line text)]
  | some code, text => .text [octet ' ', octet '['] :: Token.spaced code ++
      [.text (octet ']' :: octet ' ' :: Bytes.line text)]

def fragments : Response → List Fragment
  | .continuation text => [.text (octet '+' :: octet ' ' :: Bytes.line text)]
  | .tagged tag status code text =>
    .text (Bytes.ofText tag.text ++ octet ' ' :: Bytes.ofText status.keyword) ::
      tailFragments code text
  | .untagged ⟨tokens, _, none⟩ =>
    .text [octet '*', octet ' '] :: Token.spaced tokens ++ [.text Bytes.crlf]
  | .untagged ⟨tokens, code, some text⟩ =>
    .text [octet '*', octet ' '] :: Token.spaced tokens ++ tailFragments code text

def octets (r : Response) : Bytes := octetsOf r.fragments

/-- The lines of a response, line ends included, without the octets of literals. -/
def segments (r : Response) : List Bytes := Fragment.segmentsAfter [] r.fragments

structure WritableTail (code : Option (List Token)) (text : String) : Prop where
  tokens : ∀ ts ∈ code, ∀ t ∈ ts, t.Writable
  octets : ∀ b ∈ Bytes.ofText text, Octet.isText b = true
  plain : code = none → (Bytes.ofText text).head? ≠ some (octet '[')

inductive Writable : Response → Prop where
  | continuation {text} : (∀ b ∈ Bytes.ofText text, Octet.isText b = true) →
      Writable (.continuation text)
  | data {tokens} : (∀ t ∈ tokens, t.Writable) →
      (∀ s, tokens.head? = some (.atom s) → Status.ofKeyword? s = none) →
      Writable (.untagged ⟨tokens, none, none⟩)
  | notice {keyword code text} : (Token.atom keyword).Writable →
      (Status.ofKeyword? keyword).isSome → WritableTail code text →
      Writable (.untagged ⟨[.atom keyword], code, some text⟩)
  | completion {tag : Tag} {status code text} : tag.text ≠ "" →
      (∀ b ∈ Bytes.ofText tag.text, Octet.isTag b = true) →
      (Bytes.ofText tag.text).head? ≠ some (octet '*') → WritableTail code text →
      Writable (.tagged tag status code text)

def storedAt (spill : Nat) : Response → Response
  | .continuation text => .continuation text
  | .tagged tag status code text => .tagged tag status (code.map (Token.allStoredAt spill)) text
  | .untagged ⟨tokens, code, text⟩ =>
    .untagged ⟨Token.allStoredAt spill tokens, code.map (Token.allStoredAt spill), text⟩

end Response
end MailClient.Imap
