import MailClient.Action
import MailClient.Imap.Command
import MailClient.Imap.Error
import MailClient.Imap.Settings
import MailClient.Wire.Stream

/-! A connection: commands go out with tags, completions come back with the same tags in any
order, and literals go out as the server asks for them. An error that leaves the stream in an
unknown state makes the connection unusable for good. -/
namespace MailClient.Imap

/-- Literal chunks that wait for the server to ask for them. -/
structure Transfer where
  tag : Tag
  next : Bytes
  later : List Bytes
  deriving DecidableEq, Repr

/-- What has gone out in full or come in. -/
inductive Entry where
  | command (tag : Tag) (command : Command)
  | chunk (tag : Tag) (bytes : Bytes)
  | line (text : String)
  | response (r : Response)

structure Completion where
  tag : Tag
  status : Status
  code : Option (List Token)
  text : String
  responses : List Response

namespace Completion

def isOk (c : Completion) : Bool := c.status == .ok

def untagged (c : Completion) : List Untagged := c.responses.filterMap fun
  | .untagged u => some u
  | _ => none

/-- The error that a completion other than OK amounts to. -/
def error? (c : Completion) : Option Error :=
  match c.status with
  | .ok => none
  | .no => some (.no c.text)
  | .bad => some (.bad c.text)
  | .bye | .preauth => some (.violation (.completion c.status c.tag))

end Completion

structure Connection where
  stream : Wire.Stream
  tags : TagCounter
  /-- Tags of commands that have been sent and not been completed. -/
  outstanding : List Tag
  pending : Option Transfer
  capabilities : List String
  preauth : Bool
  usable : Bool
  ioLimit : Duration
  literalPlus : Bool
  parse : Parse.Limits
  /-- The conversation so far, on which nothing depends. -/
  transcript : List Entry

namespace Connection

def fresh (stream : Wire.Stream) (s : Settings) : Connection :=
  ⟨stream, .start 'A', [], none, [], false, true, s.ioLimit, s.literalPlus, s.parse, []⟩

def poison (c : Connection) : Connection := { c with usable := false }

def record (e : Entry) (c : Connection) : Connection := { c with transcript := c.transcript ++ [e] }

def violate (v : Violation) (c : Connection) : Except Error α × Connection :=
  (.error (.violation v), c.poison)

def hasCapability (c : Connection) (name : String) : Bool := c.capabilities.any (Text.sameWord name)

def authMechanisms (c : Connection) : List String :=
  c.capabilities.filterMap (Text.afterWord? "AUTH=")

def nextTag (c : Connection) : Tag × Connection :=
  let (tag, tags) := c.tags.next c.outstanding
  (tag, { c with tags := tags })

def queued (c : Connection) : Nat :=
  match c.pending with
  | some t => t.later.length + 1
  | none => 0

def unread (c : Connection) : Nat := c.stream.unread

/-! ### Writing -/

/-- Writes octets, which amount to an entry of the transcript. -/
def write (bytes : Bytes) (e : Entry) : Action Connection Error Unit := fun c =>
  let (r, stream) := c.stream.write bytes c.ioLimit
  let c := { c with stream := stream }
  match r with
  | .all => (.ok (), c.record e)
  | .fault f => (.error (.io f), c.poison)
  | .stalled => (.error (.timeout c.ioLimit), c.poison)

def sendChunk (t : Transfer) : Action Connection Error Unit := fun c =>
  let rest := match t.later with
    | [] => none
    | next :: later => some ⟨t.tag, next, later⟩
  write t.next (.chunk t.tag t.next) { c with pending := rest }

/-- Sends a command under a tag. Nothing is written while a literal waits, or if the tag is
outstanding. -/
def send (tag : Tag) (command : Command) : Action Connection Error Unit := fun c =>
  if !c.usable then (.error (.misuse .unusable), c)
  else if c.outstanding.contains tag then (.error (.violation (.tagInUse tag)), c)
  else match c.pending with
    | some t => (.error (.misuse (.literalWaits t.tag)), c)
    | none =>
      let waits := !(c.literalPlus && c.hasCapability "LITERAL+")
      let chunks := command.encode tag waits
      match write chunks.first (.command tag command) c with
      | (.error e, c) => (.error e, c)
      | (.ok (), c) =>
        let pending := match chunks.later with
          | [] => none
          | next :: later => some ⟨tag, next, later⟩
        (.ok (), { c with outstanding := c.outstanding ++ [tag], pending := pending })

/-- Sends a line within an exchange that a command has begun. -/
def sendLine (line : String) : Action Connection Error Unit := fun c =>
  if !c.usable then (.error (.misuse .unusable), c) else write (Bytes.line line) (.line line) c

/-! ### Reading -/

/-- Reads a response within `limit`. Running out of time in the middle of one is as bad as a
failure. -/
def receive (limit : Duration) : Action Connection Error Response := fun c =>
  let (r, stream) := c.stream.read (Parse.framing c.parse) limit
  let c := { c with stream := stream }
  match r with
  | .item response => (.ok response, c.record (.response response))
  | .broken .closed => (.error (.io .closed), c.poison)
  | .broken (.malformed position why) => (.error (.malformed position why), c.poison)
  | .failed reason _ => (.error (.io (.reset reason)), c.poison)
  | .expired s => (.error (.timeout limit), if s.isPartial then c.poison else c)

def observe (r : Response) (c : Connection) : Connection :=
  match r.capabilities? with
  | some capabilities => { c with capabilities := capabilities }
  | none => c

/-- Matches a completion with its command. Literal data that the command still had is dropped. -/
def settle (r : Response) : Action Connection Error Response := fun c =>
  match r with
  | .tagged tag .. =>
    if !c.outstanding.contains tag then c.violate (.unknownTag tag)
    else
      let pending := c.pending.filter fun t => t.tag != tag
      let c := { c with outstanding := c.outstanding.filter (· != tag), pending := pending }
      (.ok r, c.observe r)
  | _ => (.ok r, c.observe r)

theorem pending_receive (limit : Duration) (c : Connection) :
    (receive limit c).2.pending = c.pending := by
  unfold receive
  dsimp only
  split
  all_goals first
    | rfl
    | (split <;> rfl)

theorem unread_lt_of_receive {limit : Duration} {c c' : Connection} {r : Response}
    (h : receive limit c = (.ok r, c')) : c'.unread < c.unread := by
  unfold receive at h
  dsimp only at h
  split at h <;> simp only [Prod.mk.injEq, reduceCtorEq, false_and] at h
  next hread =>
    obtain ⟨-, rfl⟩ := h
    exact Wire.Stream.unread_lt_of_read (Prod.ext hread rfl)

theorem write_frame (bytes : Bytes) (e : Entry) (c : Connection) :
    (write bytes e c).2.pending = c.pending ∧ (write bytes e c).2.unread = c.unread := by
  have := Wire.Stream.unread_write bytes c.ioLimit c.stream
  unfold write
  dsimp only
  split <;> exact ⟨rfl, this⟩

theorem unread_send (tag : Tag) (command : Command) (c : Connection) :
    (send tag command c).2.unread = c.unread := by
  unfold send
  split
  · rfl
  · split
    · rfl
    · split
      · rfl
      · dsimp only
        have := fun bytes => (write_frame bytes (.command tag command) c).2
        split
        next h => exact (congrArg (fun p => p.2.unread) h).symm.trans (this _)
        next h => exact (congrArg (fun p => p.2.unread) h).symm.trans (this _)

theorem unread_sendLine (line : String) (c : Connection) :
    (sendLine line c).2.unread = c.unread := by
  unfold sendLine
  split
  · rfl
  · exact (write_frame _ _ c).2

theorem queued_sendChunk (t : Transfer) (c : Connection) :
    (sendChunk t c).2.queued = t.later.length ∧ (sendChunk t c).2.unread = c.unread := by
  unfold sendChunk
  obtain ⟨hp, hu⟩ := write_frame t.next (.chunk t.tag t.next) { c with pending := match t.later with
    | [] => none
    | next :: later => some ⟨t.tag, next, later⟩ }
  refine ⟨?_, hu⟩
  unfold queued
  rw [hp]
  cases t.later <;> rfl

/-- The next response that is not a request for a chunk; such requests are answered here. -/
def nextResponse (limit : Duration) (c : Connection) : Except Error Response × Connection :=
  match hr : receive limit c with
  | (.error e, c') => (.error e, c')
  | (.ok r, c') =>
    match r, hp : c'.pending with
    | .continuation _, some t =>
      match hs : sendChunk t c' with
      | (.error e, c'') => (.error e, c'')
      | (.ok (), c'') =>
        have : c''.queued < c.queued := by
          have h₁ := pending_receive limit c
          have h₂ := (queued_sendChunk t c').1
          rw [hr] at h₁
          rw [hs] at h₂
          have : c.pending = some t := h₁.symm.trans hp
          simp only [queued, this] at h₂ ⊢
          omega
        nextResponse limit c''
    | r, _ => settle r c'
termination_by c.queued

def readResponse (limit : Duration) : Action Connection Error Response := fun c =>
  if !c.usable then (.error (.misuse .unusable), c) else nextResponse limit c

theorem unread_settle (r : Response) (c : Connection) : (settle r c).2.unread = c.unread := by
  have observed (c : Connection) : (c.observe r).unread = c.unread := by
    unfold observe
    split <;> rfl
  unfold settle
  split
  · split
    · rfl
    · exact observed _
  · exact observed _

theorem unread_lt_of_nextResponse {limit : Duration} {c c' : Connection} {r : Response}
    (h : nextResponse limit c = (.ok r, c')) : c'.unread < c.unread := by
  fun_induction nextResponse limit c
  case case1 => simp at h
  case case2 => simp at h
  case case3 c c₁ _ t _ _ c₂ hs _ hr ih =>
    have h₁ := unread_lt_of_receive hr
    have h₂ := (queued_sendChunk t c₁).2
    rw [hs] at h₂
    have := ih h
    simp only at h₂
    omega
  case case4 c c₁ r₁ _ _ hr =>
    have h₁ := unread_lt_of_receive hr
    have h₂ := unread_settle r₁ c₁
    rw [h] at h₂
    simp only at h₂
    omega

theorem unread_le_of_receive {limit : Duration} {c c' : Connection} {d : Duration}
    (h : receive limit c = (.error (.timeout d), c')) : c'.unread ≤ c.unread := by
  unfold receive at h
  dsimp only at h
  split at h <;> simp only [Prod.mk.injEq, reduceCtorEq, Except.error.injEq, Error.timeout.injEq,
    false_and] at h
  next hread =>
    obtain ⟨-, rfl⟩ := h
    have := Wire.Stream.unread_le_of_read (Prod.ext hread rfl)
    split <;> exact this

theorem unread_le_of_nextResponse {limit : Duration} {c c' : Connection} {d : Duration}
    (h : nextResponse limit c = (.error (.timeout d), c')) : c'.unread ≤ c.unread := by
  fun_induction nextResponse limit c
  case case1 hr =>
    simp only [Prod.mk.injEq, Except.error.injEq] at h
    obtain ⟨rfl, rfl⟩ := h
    exact unread_le_of_receive hr
  case case2 c c₁ _ t hr _ e c₂ hs _ =>
    have h₁ := unread_lt_of_receive hr
    have h₂ := (queued_sendChunk t c₁).2
    rw [hs] at h₂
    simp only [Prod.mk.injEq] at h
    obtain ⟨-, rfl⟩ := h
    simp only at h₂
    omega
  case case3 c c₁ _ t _ _ c₂ hs _ hr ih =>
    have h₁ := unread_lt_of_receive hr
    have h₂ := (queued_sendChunk t c₁).2
    rw [hs] at h₂
    have := ih h
    simp only at h₂
    omega
  case case4 c c₁ r₁ _ _ hr =>
    have h₁ := unread_lt_of_receive hr
    have h₂ := unread_settle r₁ c₁
    rw [h] at h₂
    simp only at h₂
    omega

theorem unread_le_of_readResponse {limit : Duration} {c c' : Connection} {d : Duration}
    (h : readResponse limit c = (.error (.timeout d), c')) : c'.unread ≤ c.unread := by
  unfold readResponse at h
  split at h
  · simp at h
  · exact unread_le_of_nextResponse h

theorem unread_lt_of_readResponse {limit : Duration} {c c' : Connection} {r : Response}
    (h : readResponse limit c = (.ok r, c')) : c'.unread < c.unread := by
  unfold readResponse at h
  split at h
  · simp at h
  · exact unread_lt_of_nextResponse h

end Connection
end MailClient.Imap
