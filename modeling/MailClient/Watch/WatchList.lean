import MailClient.Watch.FolderWatch

/-! A set of watched folders, with a started watch for each of them. -/
namespace MailClient.Watch

structure WatchList where
  settings : Settings
  watches : List FolderWatch
  deriving DecidableEq, Repr

namespace WatchList

def empty (settings : Settings) : WatchList := ⟨settings, []⟩

def find? (folder : String) (l : WatchList) : Option FolderWatch :=
  l.watches.find? (·.folder == folder)

def folders (l : WatchList) : List String :=
  (l.watches.map (·.folder)).mergeSort fun a b => !decide (b < a)

def stopEach : List FolderWatch → Action State Imap.Error Unit
  | [] => fun s => (.ok (), s)
  | f :: rest => fun s =>
    match FolderWatch.stop (f, s) with
    | (.error e, _, s) => (.error e, s)
    | (.ok (), _, s) => stopEach rest s

def add (folder : String) : Action (WatchList × State) Imap.Error Unit := fun (l, s) =>
  if (l.find? folder).isSome then (.ok (), l, s)
  else
    match FolderWatch.start (FolderWatch.idle folder l.settings, s) with
    | (.error e, _, s) => (.error e, l, s)
    | (.ok (), f, s) => (.ok (), { l with watches := l.watches ++ [f] }, s)

def addEach : List String → Action (WatchList × State) Imap.Error Unit
  | [] => fun x => (.ok (), x)
  | folder :: rest => fun x =>
    match add folder x with
    | (.error e, x) => (.error e, x)
    | (.ok (), x) => addEach rest x

/-- Watches exactly these folders. A watch for one of them goes on undisturbed. -/
def refresh (folders : List String) : Action (WatchList × State) Imap.Error Unit := fun (l, s) =>
  let (kept, removed) := l.watches.partition fun f => folders.contains f.folder
  match stopEach removed s with
  | (.error e, s) => (.error e, { l with watches := kept }, s)
  | (.ok (), s) => addEach folders ({ l with watches := kept }, s)

def stopAll : Action (WatchList × State) Imap.Error Unit := fun (l, s) =>
  let (r, s) := stopEach l.watches s
  (r, { l with watches := [] }, s)

def display (s : State) (l : WatchList) : String :=
  "PushController \x7b sessions: [" ++
    String.intercalate ", " (l.watches.map fun f => f.display s) ++ "], config: " ++
    l.settings.display ++ ", .. \x7d"

end WatchList
end MailClient.Watch
