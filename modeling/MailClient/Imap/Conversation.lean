import MailClient.Imap.Connection

/-! Whole commands on a connection: from the tag to the completion, with all that comes between. -/
namespace MailClient.Imap.Connection

/-- Reads up to the completion of `tag`; `before` holds the responses so far in reverse. -/
def collect (tag : Tag) (before : List Response) (c : Connection) :
    Except Error Completion × Connection :=
  match h : readResponse c.ioLimit c with
  | (.error e, c') => (.error e, c')
  | (.ok (.continuation text), c') => c'.violate (.unexpectedContinuation text)
  | (.ok (.tagged completed status code text), c') =>
    if completed = tag then (.ok ⟨tag, status, code, text, before.reverse⟩, c')
    else
      have := unread_lt_of_readResponse h
      collect tag (.tagged completed status code text :: before) c'
  | (.ok (.untagged u), c') =>
    have := unread_lt_of_readResponse h
    collect tag (.untagged u :: before) c'
termination_by c.unread

def readUntil (tag : Tag) : Action Connection Error Completion := fun c =>
  if c.outstanding.contains tag then collect tag [] c
  else (.error (.misuse (.notOutstanding tag)), c)

theorem unread_lt_of_collect {tag : Tag} {before : List Response} {c c' : Connection}
    {done : Completion} (h : collect tag before c = (.ok done, c')) : c'.unread < c.unread := by
  fun_induction collect tag before c
  case case1 => simp at h
  case case2 => simp [violate] at h
  case case3 hr =>
    simp only [Prod.mk.injEq] at h
    obtain ⟨-, rfl⟩ := h
    exact unread_lt_of_readResponse hr
  case case4 hr _ _ ih =>
    have := unread_lt_of_readResponse hr
    have := ih h
    omega
  case case5 hr _ ih =>
    have := unread_lt_of_readResponse hr
    have := ih h
    omega

theorem unread_lt_of_readUntil {tag : Tag} {c c' : Connection} {done : Completion}
    (h : readUntil tag c = (.ok done, c')) : c'.unread < c.unread := by
  unfold readUntil at h
  split at h
  · exact unread_lt_of_collect h
  · simp at h

/-- Sends a command and waits for its completion, which has to be OK. -/
def execute (command : Command) : Action Connection Error Completion := fun c =>
  let (tag, c) := c.nextTag
  match send tag command c with
  | (.error e, c) => (.error e, c)
  | (.ok (), c) =>
    match readUntil tag c with
    | (.error e, c) => (.error e, c)
    | (.ok done, c) =>
      match done.error? with
      | some e => (.error e, c)
      | none => (.ok done, c)

def capability : Action Connection Error (List String) := do
  let _ ← execute (.named "CAPABILITY")
  return (← Action.get).capabilities

def learnCapabilities : Action Connection Error (List String) := fun c =>
  if c.capabilities.isEmpty then capability c else (.ok c.capabilities, c)

def noop : Action Connection Error (List Response) := do
  return (← execute (.named "NOOP")).responses

def select (mailbox : String) : Action Connection Error Completion :=
  execute ((Command.named "SELECT").withArgument (.ofText mailbox))

def examine (mailbox : String) : Action Connection Error Completion :=
  execute ((Command.named "EXAMINE").withArgument (.ofText mailbox))

def close (c : Connection) : Connection := { c.poison with stream := c.stream.shutDown }

/-- Logs out. The stream is shut down whatever the server says. -/
def logout : Action Connection Error Unit := fun c =>
  match execute (.named "LOGOUT") c with
  | (.ok _, c) => (.ok (), c.close)
  | (.error e, c) => (.error e, c.close)

/-- Reads the greeting, with which a server says whether it serves, and to whom. -/
def greet : Action Connection Error Unit := fun c =>
  match readResponse c.ioLimit c with
  | (.error e, c) => (.error e, c)
  | (.ok (.untagged u), c) =>
    match u.status? with
    | some .ok => (.ok (), c)
    | some .preauth => (.ok (), { c with preauth := true })
    | some .bye => (.error (.bye (u.text.getD "")), c.poison)
    | _ => c.violate .greetingNotStatus
  | (.ok _, c) => c.violate .greetingNotUntagged

def start (stream : Wire.Stream) (s : Settings) : Except Error Unit × Connection :=
  greet (.fresh stream s)

def display (c : Connection) : String :=
  let tags := c.outstanding.map fun t => "Tag(" ++ Text.quoted t.text ++ ")"
  "Connection \x7b outstanding: \x7b" ++ String.intercalate ", " tags ++ "\x7d, capabilities: [" ++
    String.intercalate ", " (c.capabilities.map Text.quoted) ++ "], usable: " ++
    toString c.usable ++ ", .. \x7d"

end MailClient.Imap.Connection
