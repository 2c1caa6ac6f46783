import MailClient.Text.Utf8
import MailClient.Wire.Source

/-! Payloads of announced length. `View` shows a reader no more than the announced octets of a
source. A payload above the spill threshold is kept in a temporary file, which gives back what was
written to it. Any other is read into a buffer of the announced size, and the program is stopped
before it reads anything if there is no such buffer. -/
namespace MailClient.Imap

structure Literal where
  bytes : Bytes
  /-- Whether the payload is in a temporary file. -/
  spilled : Bool
  deriving DecidableEq, Repr

namespace Literal

/-- Where a payload is kept that has come in full. -/
def store (threshold : Nat) (bytes : Bytes) : Literal := ⟨bytes, threshold < bytes.length⟩

def ofBytes (bytes : Bytes) : Literal := ⟨bytes, false⟩

def size (l : Literal) : Nat := l.bytes.length

/-- The payload as text, if it is in memory and well-formed. -/
def text? (l : Literal) : Option String := if l.spilled then none else Text.Utf8.text? l.bytes

/-- Handles in memory are equal if their octets are. A handle on a file equals only handles on
the same file. -/
def sameAs (a b : Literal) (oneFile : Bool) : Bool :=
  if a.spilled || b.spilled then a.spilled && b.spilled && oneFile else a.bytes == b.bytes

/-- The file lasts as long as there is a handle. -/
def hasFile (l : Literal) (handles : Nat) : Bool := l.spilled && handles > 0

/-- How it was found that a source ends before the announced octets do. -/
inductive Shortfall where
  | early
  | copied (count size : Nat)
  | unread (count : Nat)
  deriving DecidableEq, Repr

def Shortfall.message : Shortfall → String
  | .early => "early eof"
  | .copied count size => s!"stream ended after {count} of {size} literal bytes"
  | .unread count => s!"stream ended with {count} literal bytes unread"

structure View where
  source : Wire.Source
  remaining : Nat
  deriving DecidableEq, Repr

namespace View

/-- What the buffer holds of the announced octets; it is filled first if it is empty. A size that
is too large for a machine word is above the length of every buffer, so `take` cuts nothing off. -/
def fill (v : View) : Bytes × View :=
  if v.remaining = 0 then ([], v)
  else
    let s := v.source.fill
    (s.buffer.take v.remaining, { v with source := s })

def consume (n : Nat) (v : View) : View :=
  let n := min n v.remaining
  ⟨v.source.consume n, v.remaining - n⟩

def read (n : Nat) (v : View) : Bytes × View :=
  let (available, v) := v.fill
  let bytes := available.take n
  (bytes, v.consume bytes.length)

theorem length_fill_le (v : View) : v.fill.1.length ≤ v.remaining := by
  unfold fill
  split
  · exact Nat.zero_le _
  · rw [List.length_take]
    exact Nat.min_le_left _ _

theorem remaining_fill (v : View) : v.fill.2.remaining = v.remaining := by
  unfold fill
  split <;> rfl

theorem remaining_read (v : View) (n : Nat) :
    (v.read n).2.remaining + (v.read n).1.length = v.remaining := by
  have shown : (v.fill.1.take n).length ≤ v.remaining :=
    Nat.le_trans (List.length_take_le' n _) v.length_fill_le
  show v.fill.2.remaining - min (v.fill.1.take n).length v.fill.2.remaining +
    (v.fill.1.take n).length = _
  rw [remaining_fill]
  omega

theorem remaining_read_lt {v v' : View} {n : Nat} {bytes : Bytes} (h : v.read n = (bytes, v'))
    (came : bytes ≠ []) : v'.remaining < v.remaining := by
  have count := v.remaining_read n
  have := List.length_pos_iff.mpr came
  simp only [h] at count
  omega

/-- Reads until there are `n` octets or nothing more comes. -/
def readUpTo (n : Nat) (v : View) : Bytes × View :=
  if n = 0 then ([], v)
  else
    let (bytes, v) := v.read n
    if bytes = [] then ([], v)
    else
      let (more, v) := v.readUpTo (n - bytes.length)
      (bytes ++ more, v)
termination_by n
decreasing_by
  rename_i wanted came
  exact Nat.sub_lt (Nat.pos_of_ne_zero wanted) (List.length_pos_iff.mpr came)

/-- Reads as long as anything comes, and no more than `room` octets at once. -/
def readAll (room : Nat) (v : View) : Bytes × View :=
  match h : v.read room with
  | (bytes, v') =>
    if came : bytes = [] then ([], v')
    else
      have : v'.remaining < v.remaining := remaining_read_lt h came
      let (more, v') := v'.readAll room
      (bytes ++ more, v')
termination_by v.remaining

def readExact (n : Nat) (v : View) : Except Shortfall Bytes × View :=
  let (bytes, v) := v.readUpTo n
  (if bytes.length < n then .error .early else .ok bytes, v)

def readToEnd (v : View) : Bytes × View := v.readAll v.remaining

/-- Passes over what has not been read, and counts it. -/
def drain (v : View) : Except Shortfall Nat × View :=
  if v.remaining = 0 then (.ok 0, v)
  else
    let s := v.source.fill
    if s.buffer = [] then (.error (.unread v.remaining), { v with source := s })
    else
      let n := min s.buffer.length v.remaining
      match drain ⟨s.consume n, v.remaining - n⟩ with
      | (.ok count, v) => (.ok (n + count), v)
      | (.error e, v) => (.error e, v)
termination_by v.remaining
decreasing_by
  rename_i announced came
  have left := Nat.pos_of_ne_zero announced
  exact Nat.sub_lt left (Nat.lt_min.mpr ⟨List.length_pos_iff.mpr came, left⟩)

end View

/-- The most that a temporary file takes at once. -/
def portion : Nat := 2 * 1024 * 1024

/-- The room there is for one buffer. A buffer takes less than half of all addresses. -/
structure Memory where
  room : Nat
  addressable : room < USize.size / 2
  deriving DecidableEq, Repr

/-- As much room as the addresses allow. -/
def Memory.largest : Memory where
  room := USize.size / 2 - 1
  addressable := by
    have := USize.le_size
    omega

inductive Ending where
  | read (payload : Literal)
  | short (found : Shortfall)
  /-- The announced size is not the size of anything in memory. -/
  | unaddressable
  /-- There is no buffer of the announced size, and the program does not go on. -/
  | stopped
  deriving DecidableEq, Repr

def Ending.message? : Ending → Option String
  | .short found => some found.message
  | .unaddressable => some "out of range integral type conversion attempted"
  | .read _ | .stopped => none

def readInto (memory : Memory) (source : Wire.Source) (size : Nat) : Ending × Wire.Source :=
  if USize.size ≤ size then (.unaddressable, source)
  else if memory.room < size then (.stopped, source)
  else match View.readExact size ⟨source, size⟩ with
    | (.ok bytes, v) => (.read ⟨bytes, false⟩, v.source)
    | (.error found, v) => (.short found, v.source)

def copyFrom (source : Wire.Source) (size : Nat) : Ending × Wire.Source :=
  let (bytes, v) := View.readAll portion ⟨source, size⟩
  if bytes.length < size then (.short (.copied bytes.length size), v.source)
  else match v.drain with
    | (.ok _, v) => (.read ⟨bytes, true⟩, v.source)
    | (.error found, v) => (.short found, v.source)

/-- A payload above the threshold is copied from the buffer to a file. Any other is read into
memory. -/
def readFrom (memory : Memory) (source : Wire.Source) (size threshold : Nat) :
    Ending × Wire.Source :=
  if size ≤ threshold then readInto memory source size else copyFrom source size

end Literal
end MailClient.Imap
