import MailClient.Action
import MailClient.Smtp.Command
import MailClient.Smtp.Reading
import MailClient.Wire.Stream

/-! Commands out and replies in, each within a limit of time. -/
namespace MailClient.Smtp

def write (bytes : Bytes) (limit : Duration) : Action Wire.Stream Error Unit := fun s =>
  match s.write bytes limit with
  | (.all, s) => (.ok (), s)
  | (.fault f, s) => (.error (.io f), s)
  | (.stalled, s) => (.error (.timeout limit), s)

def readReply (limit : Duration) : Action Wire.Stream Error Reply := fun s =>
  match s.read Reading.framing limit with
  | (.item reply, s) => (.ok reply, s)
  | (.broken e, s) => (.error e, s)
  | (.failed reason _, s) => (.error (.io (.reset reason)), s)
  | (.expired _, s) => (.error (.timeout limit), s)

def exchange (bytes : Bytes) (limit : Duration) : Action Wire.Stream Error Reply := do
  write bytes limit
  readReply limit

def request (command : Command) (limit : Duration) : Action Wire.Stream Error Reply :=
  exchange command.encode limit

/-- The reply, unless it refuses. -/
def accepted (reply : Reply) : Action Wire.Stream Error Unit :=
  match reply.error? with
  | none => pure ()
  | some e => Action.fail e

end MailClient.Smtp
