import MailClient.Wire.Stream

/-! What happens on the way to an encrypted connection. -/
namespace MailClient.Wire

inductive Dialled where
  | stream (s : Stream)
  | fault (f : Fault)
  | expired
  deriving DecidableEq, Repr

inductive Opening (α ε : Type) where
  | ready (a : α)
  | handshake (host : String) (stream : Stream)
  /-- There is a stream unless dialling failed. -/
  | failed (e : ε) (stream : Option Stream)

end MailClient.Wire
