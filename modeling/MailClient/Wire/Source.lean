import MailClient.Bytes

/-! Octets that arrive in pieces. A reader sees one piece at a time: the buffer is filled again
only when it is empty. -/
namespace MailClient.Wire

/-- Cuts octets into pieces of `size`, the last one perhaps shorter. `piece` is the unfinished
piece in reverse, with room for `room` more octets. -/
def cutInto (size : Nat) : (room : Nat) → (piece : Bytes) → Bytes → List Bytes
  | _, piece, [] => if piece.isEmpty then [] else [piece.reverse]
  | 0, piece, b :: bs => piece.reverse :: cutInto size (size - 1) [b] bs
  | room + 1, piece, b :: bs => cutInto size room (b :: piece) bs

/-- Pieces of `size` octets. Nothing can be read in pieces of none. -/
def pieces (size : Nat) (bs : Bytes) : List Bytes :=
  if size = 0 then [] else cutInto size size [] bs

structure Source where
  buffer : Bytes
  feed : List Bytes
  deriving DecidableEq, Repr

namespace Source

def ofPieces (feed : List Bytes) : Source := ⟨[], feed⟩

def content (s : Source) : Bytes := s.buffer ++ s.feed.flatten

def refill : List Bytes → Source
  | [] => ⟨[], []⟩
  | p :: ps => if p.isEmpty then refill ps else ⟨p, ps⟩

def fill (s : Source) : Source := if s.buffer.isEmpty then refill s.feed else s

def consume (n : Nat) (s : Source) : Source := { s with buffer := s.buffer.drop n }

end Source
end MailClient.Wire
