import MailClient.Imap.Conversation

/-! The IDLE command of RFC 2177: the server reports changes as they happen, until the client
ends the command with `DONE`. -/
namespace MailClient.Imap

/-- What a wait led to: a report, the end of the command, or no news in time. -/
inductive Event where
  | messageCount (count : Nat)
  | expunge (number : Nat)
  | fetch (number : Nat) (flags : List String)
  | recent (count : Nat)
  | vanished (tokens : List Token)
  | other (u : Untagged)
  | ended
  | timeout

namespace Event

/-- The flags in the attributes of a message, where they follow the word `FLAGS`. -/
def flags (arguments : List Token) : List String :=
  match arguments.head? >>= Token.list? with
  | none => []
  | some items =>
    match (items.dropWhile fun t => !t.isKeyword "FLAGS")[1]? >>= Token.list? with
    | some flags => flags.filterMap Token.atom?
    | none => []

def ofUntagged (u : Untagged) : Event :=
  match u.keyword?.map Text.upper, u.number? with
  | some "EXISTS", some n => .messageCount n
  | some "EXPUNGE", some n => .expunge n
  | some "RECENT", some n => .recent n
  | some "FETCH", some n => .fetch n (flags u.arguments)
  | some "VANISHED", none => .vanished u.arguments
  | _, _ => .other u

def isFolderChange : Event → Bool
  | .messageCount _ | .expunge _ | .fetch .. | .recent _ | .vanished _ => true
  | .other _ | .ended | .timeout => false

def isQuiet : Event → Bool
  | .ended | .timeout => true
  | _ => false

end Event

structure Idling where
  connection : Connection
  tag : Tag
  /-- Responses from before the server let the client idle, which are delivered first. -/
  early : List Untagged
  /-- Set when the server has ended the command by itself. -/
  ended : Bool

namespace Idling

def enter (tag : Tag) (early : List Untagged) (c : Connection) : Except Error Idling × Connection :=
  match h : c.readResponse c.ioLimit with
  | (.error e, c') => (.error e, c')
  | (.ok (.continuation _), c') => (.ok ⟨c', tag, early.reverse, false⟩, c')
  | (.ok (.tagged _ status _ text), c') =>
    match status with
    | .no => (.error (.no text), c')
    | .bad => (.error (.bad text), c')
    | _ => (.error (.violation .idleNotEntered), c')
  | (.ok (.untagged u), c') =>
    have := Connection.unread_lt_of_readResponse h
    enter tag (u :: early) c'
termination_by c.unread

def start : Action Connection Error Idling := fun c =>
  let (tag, c) := c.nextTag
  match c.send tag (.named "IDLE") with
  | (.error e, c) => (.error e, c)
  | (.ok (), c) => enter tag [] c

def violate (v : Violation) (i : Idling) : Except Error α × Idling :=
  (.error (.violation v), { i with connection := i.connection.poison })

def wait (limit : Duration) : Action Idling Error Event := fun i =>
  match i.early with
  | u :: rest => (.ok (.ofUntagged u), { i with early := rest })
  | [] =>
    if i.ended then (.ok .ended, i)
    else
      let (r, c) := i.connection.readResponse limit
      let i := { i with connection := c }
      match r with
      | .error (.timeout d) => if c.usable then (.ok .timeout, i) else (.error (.timeout d), i)
      | .error e => (.error e, i)
      | .ok (.untagged u) =>
        if u.status? = some .bye then (.error (.bye (u.text.getD "")), i)
        else (.ok (.ofUntagged u), i)
      | .ok (.tagged _ status _ text) =>
        let i := { i with ended := true }
        match status with
        | .ok => (.ok .ended, i)
        | .no => (.error (.no text), i)
        | .bad => (.error (.bad text), i)
        | .bye | .preauth => i.violate (.idleCompletion status)
      | .ok (.continuation _) => i.violate .idleContinuation

/-- Stops idling, and gives the responses that no wait has delivered. -/
def done (i : Idling) : Except Error (List Response) × Connection :=
  let early := i.early.map Response.untagged
  if i.ended then (.ok early, i.connection)
  else match i.connection.sendLine "DONE" with
    | (.error e, c) => (.error e, c)
    | (.ok (), c) =>
      match c.readUntil i.tag with
      | (.error e, c) => (.error e, c)
      | (.ok completion, c) =>
        match completion.error? with
        | some e => (.error e, c)
        | none => (.ok (early ++ completion.responses), c)

def backlog (i : Idling) : Nat := i.connection.unread + i.early.length

theorem unread_lt_of_enter {tag : Tag} {early : List Untagged} {c c' : Connection} {i : Idling}
    (h : enter tag early c = (.ok i, c')) : i.connection.unread < c.unread := by
  fun_induction enter tag early c
  case case1 => simp at h
  case case2 hr =>
    simp only [Prod.mk.injEq, Except.ok.injEq] at h
    obtain ⟨rfl, -⟩ := h
    exact Connection.unread_lt_of_readResponse hr
  case case6 hr _ ih =>
    have := Connection.unread_lt_of_readResponse hr
    have := ih h
    omega
  all_goals simp at h

theorem unread_lt_of_start {c c' : Connection} {i : Idling} (h : start c = (.ok i, c')) :
    i.connection.unread < c.unread := by
  unfold start at h
  dsimp only at h
  split at h
  · simp at h
  next c₁ hs =>
    have h₁ := unread_lt_of_enter h
    have h₂ := Connection.unread_send (c.nextTag).1 (.named "IDLE") (c.nextTag).2
    rw [hs] at h₂
    simp only at h₂
    rw [h₂] at h₁
    exact h₁

theorem unread_of_wait {limit : Duration} {i i' : Idling} {e : Event}
    (h : wait limit i = (.ok e, i')) :
    i'.connection.unread ≤ i.connection.unread ∧ (i'.backlog < i.backlog ∨ e.isQuiet) := by
  unfold wait at h
  split at h
  next u rest he =>
    simp only [Prod.mk.injEq] at h
    obtain ⟨-, rfl⟩ := h
    exact ⟨Nat.le_refl _, .inl (by simp [backlog, he])⟩
  next he =>
    split at h
    · simp only [Prod.mk.injEq, Except.ok.injEq] at h
      obtain ⟨rfl, rfl⟩ := h
      exact ⟨Nat.le_refl _, .inr rfl⟩
    · dsimp only at h
      generalize hr : Connection.readResponse limit i.connection = p at h
      obtain ⟨r, c⟩ := p
      dsimp only at h
      split at h
      · split at h
        · simp only [Prod.mk.injEq, Except.ok.injEq] at h
          obtain ⟨rfl, rfl⟩ := h
          exact ⟨Connection.unread_le_of_readResponse hr, .inr rfl⟩
        · simp at h
      · simp at h
      · have := Connection.unread_lt_of_readResponse hr
        split at h
        · simp at h
        · simp only [Prod.mk.injEq] at h
          obtain ⟨-, rfl⟩ := h
          exact ⟨by dsimp only; omega, .inl (by simp only [backlog]; omega)⟩
      · have := Connection.unread_lt_of_readResponse hr
        split at h <;> simp only [Prod.mk.injEq, reduceCtorEq, false_and, violate] at h
        obtain ⟨-, rfl⟩ := h
        exact ⟨by dsimp only; omega, .inl (by simp only [backlog]; omega)⟩
      · simp [violate] at h

theorem unread_of_done {i : Idling} {rs : List Response} {c : Connection}
    (h : i.done = (.ok rs, c)) : c.unread ≤ i.connection.unread := by
  unfold done at h
  dsimp only at h
  split at h
  · simp only [Prod.mk.injEq] at h
    exact h.2 ▸ Nat.le_refl _
  · split at h
    · simp at h
    next c₁ hs =>
      have h₁ := Connection.unread_sendLine "DONE" i.connection
      rw [hs] at h₁
      simp only at h₁
      split at h
      · simp at h
      next done c₂ hd =>
        have h₂ := Connection.unread_lt_of_readUntil hd
        split at h
        · simp at h
        · simp only [Prod.mk.injEq] at h
          obtain ⟨-, rfl⟩ := h
          omega

end Idling
end MailClient.Imap
