import MailClient.Text.Decimal

/-! Command tags. The server repeats the tag of a command when it completes it. -/
namespace MailClient.Imap

structure Tag where
  text : String
  deriving DecidableEq, Repr

/-- Numbers tags one after the other. The number wraps at 2^32. -/
structure TagCounter where
  lead : Char
  count : UInt32
  deriving DecidableEq, Repr

namespace TagCounter

def start (lead : Char) : TagCounter := ⟨lead, 0⟩

/-- A lead character and a number of at least four digits. -/
def tag (c : TagCounter) : Tag := ⟨String.ofList [c.lead] ++ Text.padded 4 c.count.toNat⟩

def advance (c : TagCounter) : TagCounter := { c with count := c.count + 1 }

def skip (n : Nat) (c : TagCounter) : TagCounter := { c with count := c.count + UInt32.ofNat n }

/-- Skips tags in use. Tags that follow each other differ, so of one more than are in use, one
is free. -/
def free (inUse : List Tag) : (tries : Nat) → TagCounter → Tag × TagCounter
  | 0, c => (c.tag, c.advance)
  | tries + 1, c => if inUse.contains c.tag then free inUse tries c.advance else (c.tag, c.advance)

def next (inUse : List Tag) (c : TagCounter) : Tag × TagCounter := c.free inUse inUse.length

end TagCounter
end MailClient.Imap
