import MailClient.Watch.State

/-! A watch over one folder, which is started and stopped in turn. Each start has a worker and a
hold on the wake lock of its own. -/
namespace MailClient.Watch

structure FolderWatch where
  folder : String
  settings : Settings
  /-- The worker of the present start. -/
  worker : Option Nat
  deriving DecidableEq, Repr

namespace FolderWatch

def idle (folder : String) (settings : Settings) : FolderWatch := ⟨folder, settings, none⟩

def isStarted (f : FolderWatch) : Bool := f.worker.isSome

def isHeld (s : State) (f : FolderWatch) : Bool := f.worker.any s.isHeld

def workerName (folder : String) : String := "push-" ++ folder

def start : Action (FolderWatch × State) Imap.Error Unit := fun (f, s) =>
  if f.isStarted then (.error (.misuse (.watchStarted f.folder)), f, s)
  else (.ok (), { f with worker := some s.workers.length }, s.start f.folder f.settings)

def stop : Action (FolderWatch × State) Imap.Error Unit := fun (f, s) =>
  match f.worker with
  | none => (.error (.misuse (.watchNotStarted f.folder)), f, s)
  | some i => (.ok (), { f with worker := none }, s.stop i)

def discard (f : FolderWatch) (s : State) : State :=
  match f.worker with
  | none => s
  | some i => s.stop i

def display (s : State) (f : FolderWatch) : String :=
  "PushSession \x7b folder: " ++ Text.quoted f.folder ++ ", started: " ++ toString f.isStarted ++
    ", wake: " ++ Hold.display ⟨f.isHeld s⟩ ++ ", config: " ++ f.settings.display ++ ", .. \x7d"

end FolderWatch
end MailClient.Watch
