import MailClient.Bytes

/-! The other direction: how much the peer accepts of what the client writes. -/
namespace MailClient.Wire

inductive Refusal where
  | error
  | nothing
  | stall
  deriving DecidableEq, Repr

structure Outlet where
  /-- Octets accepted at once; without it there is no limit. -/
  burst : Option Nat
  /-- Octets accepted from now on; without it there is no limit. -/
  room : Option Nat
  refusal : Refusal
  deriving DecidableEq, Repr

namespace Outlet

def unlimited : Outlet := ⟨none, none, .error⟩

def accept (o : Outlet) (length : Nat) : Nat × Option Refusal × Outlet :=
  let fits : Bool := match o.room with
    | some n => length ≤ n
    | none => true
  if length = 0 then (0, none, o)
  else if o.room = some 0 then (0, some o.refusal, o)
  else if o.burst = some 0 then (0, some .nothing, o)
  else if fits then (length, none, { o with room := o.room.map (· - length) })
  else (o.room.getD 0, some o.refusal, { o with room := some 0 })

end Outlet
end MailClient.Wire
