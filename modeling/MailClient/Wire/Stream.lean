import MailClient.Wire.Fault
import MailClient.Wire.Inbox
import MailClient.Wire.Outlet

/-! A stream to a peer: what arrives, what has been sent and when, and the clock by which both
happen. -/
namespace MailClient.Wire

structure Sent where
  instant : Duration
  bytes : Bytes
  deriving DecidableEq, Repr

structure Stream where
  inbox : Inbox
  outlet : Outlet
  clock : Duration
  sent : List Sent
  shut : Bool
  deriving DecidableEq, Repr

inductive Written where
  | all
  | fault (f : Fault)
  | stalled
  deriving DecidableEq, Repr

namespace Stream

def start (feed : List Arrival) (outlet : Outlet) : Stream :=
  ⟨.ofFeed feed, outlet, 0, [], false⟩

variable {σ ε α : Type}

def read (f : Framing σ ε α) (limit : Duration) (s : Stream) : Arrived σ ε α × Stream :=
  let (r, inbox, clock) := s.inbox.pull f (s.clock + limit) s.clock
  (r, { s with inbox := inbox, clock := clock })

/-- Writes within `limit`. What was accepted before a failure counts as sent. -/
def write (bytes : Bytes) (limit : Duration) (s : Stream) : Written × Stream :=
  let (count, refusal, outlet) := s.outlet.accept bytes.length
  let sent := if count = 0 ∧ refusal.isSome then s.sent
    else s.sent ++ [⟨s.clock, bytes.take count⟩]
  let s := { s with outlet := outlet, sent := sent }
  match refusal with
  | none => (.all, s)
  | some .error => (.fault .writeRefused, s)
  | some .nothing => (.fault .writeNothing, s)
  | some .stall => (.stalled, { s with clock := s.clock + limit })

def unread (s : Stream) : Nat := s.inbox.unread

theorem unread_lt_of_read {f : Framing σ ε α} {limit : Duration} {s s' : Stream} {a : α}
    (h : s.read f limit = (.item a, s')) : s'.unread < s.unread := by
  simp only [read, Prod.mk.injEq] at h
  obtain ⟨ha, rfl⟩ := h
  exact Inbox.unread_lt_of_pull (Prod.ext ha rfl)

theorem unread_le_of_read {f : Framing σ ε α} {limit : Duration} {s s' : Stream} {t : σ}
    (h : s.read f limit = (.expired t, s')) : s'.unread ≤ s.unread := by
  simp only [read, Prod.mk.injEq] at h
  obtain ⟨ha, rfl⟩ := h
  exact Inbox.unread_le_of_pull (Prod.ext ha rfl)

theorem unread_write (bytes : Bytes) (limit : Duration) (s : Stream) :
    (s.write bytes limit).2.unread = s.unread := by
  unfold write
  dsimp only
  split <;> rfl

def shutDown (s : Stream) : Stream := { s with shut := true }

def wait (span : Duration) (s : Stream) : Stream := { s with clock := s.clock + span }

end Stream
end MailClient.Wire
