/-! Holds on a lock that keeps the device awake. A hold counts at most once, however often it is
taken, and holds may share one lock. -/
namespace MailClient.Watch

inductive LockCall where
  | acquire
  | release
  deriving DecidableEq, Repr

inductive Sharing where
  | unlocked
  | each
  /-- The first hold takes the lock, and the last one gives it back. -/
  | together
  deriving DecidableEq, Repr

structure WakeLock where
  sharing : Sharing
  holders : Nat
  deriving DecidableEq, Repr

namespace WakeLock

def free (sharing : Sharing) : WakeLock := ⟨sharing, 0⟩

def acquire (l : WakeLock) : List LockCall × WakeLock :=
  match l.sharing with
  | .unlocked => ([], l)
  | .each => ([.acquire], l)
  | .together => (if l.holders = 0 then [.acquire] else [], { l with holders := l.holders + 1 })

def release (l : WakeLock) : List LockCall × WakeLock :=
  match l.sharing with
  | .unlocked => ([], l)
  | .each => ([.release], l)
  | .together => (if l.holders = 1 then [.release] else [], { l with holders := l.holders - 1 })

end WakeLock

structure Hold where
  held : Bool
  deriving DecidableEq, Repr

namespace Hold

def loose : Hold := ⟨false⟩

def acquire (h : Hold) (l : WakeLock) : List LockCall × Hold × WakeLock :=
  if h.held then ([], h, l)
  else
    let (calls, l) := l.acquire
    (calls, ⟨true⟩, l)

def release (h : Hold) (l : WakeLock) : List LockCall × Hold × WakeLock :=
  if h.held then
    let (calls, l) := l.release
    (calls, ⟨false⟩, l)
  else ([], h, l)

def display (h : Hold) : String := "WakeGuard \x7b held: " ++ toString h.held ++ ", .. \x7d"

end Hold
end MailClient.Watch
