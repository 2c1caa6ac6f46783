import MailClient.Json.Record

/-! How a folder is watched. -/
namespace MailClient.Watch

structure Settings where
  maxIdle : Duration := Duration.seconds 1440
  /-- The time that the server has for the completion after `DONE`. -/
  doneLimit : Duration := Duration.seconds 30
  readOnly : Bool := false
  deriving DecidableEq, Repr

namespace Settings

def ofJson? (v : Json) : Option Settings := do
  let c ← Json.columns? ["max_idle", "done_timeout", "read_only"] false v
  let d : Settings := {}
  let maxIdle ← c.read 0 (some d.maxIdle) Json.duration?
  let doneLimit ← c.read 1 (some d.doneLimit) Json.duration?
  let readOnly ← c.read 2 (some d.readOnly) Json.bool?
  return ⟨maxIdle, doneLimit, readOnly⟩

def display (s : Settings) : String :=
  "PushConfig \x7b max_idle: " ++ s.maxIdle.text ++ ", done_timeout: " ++ s.doneLimit.text ++
    ", read_only: " ++ toString s.readOnly ++ " \x7d"

end Settings
end MailClient.Watch
